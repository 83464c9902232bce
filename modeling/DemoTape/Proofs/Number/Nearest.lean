/-
# Rounding goes to the nearest number

`roundDiv` yields the quotient that is nearest (`roundDiv_nearest`), and more is not rounded to less
(`roundDiv_mono`). A number of quanta is divided by a power of two that leaves a significand, and the next
power of two is the only quotient that is not one; so both carry over to the numbers of a format: their
magnitudes are in the order of their quanta (`quanta_lt_quanta`), rounding keeps this order
(`FloatFormat.round_mono`), and of all numbers none is nearer than the one that is rounded to
(`nearest_quanta`).
-/
import DemoTape.Proofs.Number.Widening

namespace DemoTape
set_option autoImplicit false

-- powers are those of the core library, whatever else is loaded
attribute [local instance (high)] instPowNat

/-! ## Quotients -/

theorem div_le_roundDiv (num den : Nat) : num / den ≤ roundDiv num den := by
  unfold roundDiv
  dsimp only
  split
  · exact Nat.le_refl _
  · split <;> omega

theorem roundDiv_le (num den : Nat) : roundDiv num den ≤ num / den + 1 := by
  unfold roundDiv
  dsimp only
  split
  · omega
  · split <;> omega

theorem roundDiv_mono {num num' : Nat} (den : Nat) (le : num ≤ num') : roundDiv num den ≤ roundDiv num' den := by
  rcases Nat.lt_or_eq_of_le (Nat.div_le_div_right (c := den) le) with less | same
  · exact Nat.le_trans (roundDiv_le num den) (Nat.le_trans less (div_le_roundDiv num' den))
  · have parts := Nat.div_add_mod num den
    have parts' := Nat.div_add_mod num' den
    rw [← same] at parts'
    unfold roundDiv
    dsimp only
    -- both remainders are measured at one quotient, and the greater is rounded up if the lesser is
    rw [← same]
    split <;> split <;> try split
    all_goals try split
    all_goals omega

/-- What is rounded is off by half at most. -/
theorem roundDiv_half (num : Nat) {den : Nat} (positive : 0 < den) :
    2 * ((roundDiv num den * den : Nat) - num : Int).natAbs ≤ den := by
  have parts := Nat.div_add_mod' num den
  have rest := Nat.mod_lt num positive
  have choice : roundDiv num den * den = num / den * den ∧ 2 * (num % den) ≤ den ∨
      roundDiv num den * den = num / den * den + den ∧ den ≤ 2 * (num % den) := by
    unfold roundDiv
    dsimp only
    rcases Nat.lt_trichotomy (2 * (num % den)) den with less | tie | more
    · rw [if_pos less]
      exact .inl ⟨rfl, by omega⟩
    · rw [if_neg (by omega), if_pos tie]
      rcases Nat.mod_two_eq_zero_or_one (num / den) with even | odd
      · exact .inl ⟨by rw [even, Nat.add_zero], by omega⟩
      · exact .inr ⟨by rw [odd, Nat.succ_mul], by omega⟩
    · rw [if_neg (by omega), if_neg (by omega)]
      exact .inr ⟨Nat.succ_mul _ _, by omega⟩
  generalize roundDiv num den * den = near at choice
  omega

/-- No other multiple is nearer. -/
theorem roundDiv_nearest (num : Nat) {den : Nat} (positive : 0 < den) (k : Int) :
    ((roundDiv num den * den : Nat) - num : Int).natAbs ≤ (k * den - num).natAbs := by
  have half := roundDiv_half num positive
  by_cases same : k = roundDiv num den
  · exact Nat.le_of_eq (by rw [same, Int.natCast_mul])
  · have apart : den ≤ (k * den - (roundDiv num den * den : Nat)).natAbs := by
      rw [Int.natCast_mul, ← Int.sub_mul, Int.natAbs_mul, Int.natAbs_natCast]
      exact Nat.le_mul_of_pos_left _ (by omega)
    generalize k * (den : Int) = other at apart
    generalize roundDiv num den * den = near at half apart
    omega

/-! ## Significands -/

namespace FloatFormat

/-- The excess of a number of quanta over the significant bits, and what is left when it is cut off. -/
theorem round_whole (f : FloatFormat) (n : Nat) :
    f.round n (2 ^ f.depth) = min f.infinity
      ((n.log2 - f.fractionBits) * 2 ^ f.fractionBits + roundDiv n (2 ^ (n.log2 - f.fractionBits))) := by
  have one : 0 < 2 ^ f.depth := Nat.two_pow_pos _
  unfold round
  dsimp only
  rw [Nat.mul_div_cancel _ one, Nat.mul_comm (2 ^ f.depth), roundDiv_scale _ _ one]

/-- What is left of a number of quanta has as many bits as a significand, or is the next power of two. -/
theorem roundDiv_excess_le (bits n : Nat) : roundDiv n (2 ^ (n.log2 - bits)) ≤ 2 ^ (bits + 1) := by
  have below : n / 2 ^ (n.log2 - bits) < 2 ^ (bits + 1) := by
    rw [Nat.div_lt_iff_lt_mul (Nat.two_pow_pos _), ← Nat.pow_add]
    exact Nat.lt_of_lt_of_le Nat.lt_log2_self (Nat.pow_le_pow_right (by decide) (by omega))
  have := roundDiv_le n (2 ^ (n.log2 - bits))
  omega

theorem le_of_excess {bits n : Nat} (excess : n.log2 - bits ≠ 0) : 2 ^ (bits + (n.log2 - bits)) ≤ n := by
  have nonzero : n ≠ 0 := by
    rintro rfl
    simp at excess
  rw [show bits + (n.log2 - bits) = n.log2 by omega]
  exact Nat.log2_self_le nonzero

/-- If anything is cut off, then the leading bit is left. -/
theorem le_roundDiv_excess {bits n : Nat} (excess : n.log2 - bits ≠ 0) :
    2 ^ bits ≤ roundDiv n (2 ^ (n.log2 - bits)) := by
  refine Nat.le_trans ((Nat.le_div_iff_mul_le (Nat.two_pow_pos _)).mpr ?_) (div_le_roundDiv _ _)
  rw [← Nat.pow_add]
  exact le_of_excess excess

theorem log2_mono {m n : Nat} (le : m ≤ n) : m.log2 ≤ n.log2 := by
  by_cases zero : m = 0
  · simp [zero]
  · exact (Nat.le_log2 (by omega)).mpr (Nat.le_trans (Nat.log2_self_le zero) le)

/-- More quanta are not rounded to less. -/
theorem round_mono (f : FloatFormat) {m n : Nat} (le : m ≤ n) :
    f.round m (2 ^ f.depth) ≤ f.round n (2 ^ f.depth) := by
  rw [round_whole, round_whole]
  refine Nat.le_min.mpr ⟨Nat.min_le_left _ _, Nat.le_trans (Nat.min_le_right _ _) ?_⟩
  rcases Nat.lt_or_eq_of_le (Nat.sub_le_sub_right (log2_mono le) f.fractionBits) with less | same
  · calc (m.log2 - f.fractionBits) * 2 ^ f.fractionBits + roundDiv m (2 ^ (m.log2 - f.fractionBits))
        ≤ (m.log2 - f.fractionBits) * 2 ^ f.fractionBits + 2 ^ (f.fractionBits + 1) :=
          Nat.add_le_add_left (roundDiv_excess_le _ _) _
      _ = (m.log2 - f.fractionBits + 1) * 2 ^ f.fractionBits + 2 ^ f.fractionBits := by
          rw [Nat.pow_succ, Nat.succ_mul]
          omega
      _ ≤ _ := Nat.add_le_add (Nat.mul_le_mul_right _ less) (le_roundDiv_excess (by omega))
  · rw [same]
    exact Nat.add_le_add_left (roundDiv_mono _ le) _

end FloatFormat

/-! ## Numbers of a format -/

namespace Binary
variable {f : FloatFormat} {x y : Binary f}

/-- Finite numbers without their signs are in the order of their magnitudes. -/
theorem quanta_lt_quanta (left : x.magnitude ≤ f.infinity) (right : y.magnitude ≤ f.infinity) :
    x.quanta < y.quanta ↔ x.magnitude < y.magnitude := by
  have mono {x y : Binary f} (left : x.magnitude ≤ f.infinity) (right : y.magnitude ≤ f.infinity)
      (less : x.magnitude < y.magnitude) : x.quanta < y.quanta := by
    rw [← round_quanta left, ← round_quanta right] at less
    exact Nat.lt_of_not_le fun le => Nat.not_le.mpr less (f.round_mono le)
  refine ⟨fun less => ?_, mono left right⟩
  rcases Nat.lt_trichotomy x.magnitude y.magnitude with lower | same | higher
  · exact lower
  · rw [quanta, quanta, same] at less
    exact absurd less (Nat.lt_irrefl _)
  · exact absurd less (Nat.lt_asymm (mono right left higher))

/-- The quanta of a number whose leading bit is there, unless it has the least exponent. -/
theorem quanta_of_magnitude {excess significand : Nat} (short : significand ≤ 2 ^ (f.fractionBits + 1))
    (leading : excess ≠ 0 → 2 ^ f.fractionBits ≤ significand)
    (parts : x.magnitude = excess * 2 ^ f.fractionBits + significand) :
    x.quanta = significand * 2 ^ excess := by
  by_cases full : significand = 2 ^ (f.fractionBits + 1)
  · -- the significand has become the next power of two: the exponent is one more
    have carried : x.magnitude = (excess + 1) * 2 ^ f.fractionBits + 2 ^ f.fractionBits := by
      rw [parts, full, Nat.pow_succ, Nat.succ_mul]
      omega
    rw [quanta_normal (Nat.le_refl _) (Nat.pow_lt_pow_right (by decide) (Nat.lt_succ_self _)) carried, full,
      ← Nat.pow_add, ← Nat.pow_add]
    congr 1
    omega
  · by_cases normal : 2 ^ f.fractionBits ≤ significand
    · exact quanta_normal normal (by omega) parts
    · obtain rfl : excess = 0 := Decidable.byContradiction fun some => normal (leading some)
      rw [Nat.zero_mul, Nat.zero_add] at parts
      have subnormal : significand < 2 ^ f.fractionBits := Nat.not_le.mp normal
      simp [quanta, parts, Nat.div_eq_of_lt subnormal, Nat.mod_eq_of_lt subnormal]

/-- A number is a multiple of a power of two, or it is too small for that. -/
theorem quanta_multiple (x : Binary f) (excess : Nat) :
    (∃ k, x.quanta = k * 2 ^ excess) ∨ x.quanta < 2 ^ (f.fractionBits + excess) := by
  obtain ⟨m, k, short, value⟩ := quanta_short x
  rcases Nat.le_total excess k with le | le
  · refine .inl ⟨m * 2 ^ (k - excess), ?_⟩
    rw [value, Nat.mul_assoc, ← Nat.pow_add, Nat.sub_add_cancel le]
  · rcases Nat.lt_or_eq_of_le le with less | rfl
    · refine .inr ?_
      calc x.quanta < 2 ^ (f.fractionBits + 1) * 2 ^ k := by
            rw [value]
            exact (Nat.mul_lt_mul_right (Nat.two_pow_pos _)).mpr short
        _ = 2 ^ (f.fractionBits + 1 + k) := (Nat.pow_add _ _ _).symm
        _ ≤ 2 ^ (f.fractionBits + excess) := Nat.pow_le_pow_right (by decide) (by omega)
    · exact .inl ⟨m, value⟩

/-- A number that a number of quanta is rounded to is the nearest multiple of a power of two. -/
theorem quanta_rounded {n : Nat} (rounded : x.magnitude = f.round n (2 ^ f.depth))
    (finite : x.magnitude < f.infinity) :
    x.quanta = roundDiv n (2 ^ (n.log2 - f.fractionBits)) * 2 ^ (n.log2 - f.fractionBits) := by
  refine quanta_of_magnitude (FloatFormat.roundDiv_excess_le _ _) FloatFormat.le_roundDiv_excess ?_
  rw [FloatFormat.round_whole] at rounded
  omega

/-- **A number of quanta is rounded to the nearest number**, whatever the sign of the other is. -/
theorem nearest_quanta {n : Nat} (rounded : x.magnitude = f.round n (2 ^ f.depth)) (finite : x.magnitude < f.infinity)
    (y : Binary f) {k : Int} (value : k.natAbs = y.quanta) : (x.quanta - n : Int).natAbs ≤ (k - n).natAbs := by
  rw [quanta_rounded rounded finite]
  have nearest := roundDiv_nearest n (Nat.two_pow_pos (n.log2 - f.fractionBits))
  rcases quanta_multiple y (n.log2 - f.fractionBits) with ⟨m, multiple⟩ | small
  · obtain ⟨j, rfl⟩ : ((2 ^ (n.log2 - f.fractionBits) : Nat) : Int) ∣ k :=
      Int.ofNat_dvd_left.mpr ⟨m, by rw [value, multiple, Nat.mul_comm]⟩
    rw [Int.mul_comm]
    exact nearest j
  · by_cases excess : n.log2 - f.fractionBits = 0
    · simpa [excess] using nearest k
    · -- the least number with this exponent lies between
      have least := FloatFormat.le_of_excess excess
      have between := nearest (2 ^ f.fractionBits : Nat)
      rw [← Int.natCast_mul, ← Nat.pow_add] at between
      omega

end Binary
end DemoTape
