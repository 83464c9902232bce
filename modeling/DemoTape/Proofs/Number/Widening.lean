/-
# Widening loses nothing

A number of quanta with few enough significant bits, and not too large, is the value of a finite number
(`exists_quanta`). Every finite single is such a number of double quanta, so it keeps its value when it is
widened (`quanta_widen`), and of all that can be widened only the NaNs are not told apart by what comes out
(`masked_of_widen`).
-/
import DemoTape.Number.Binary

namespace DemoTape
set_option autoImplicit false

-- powers are those of the core library, whatever else is loaded
attribute [local instance (high)] instPowNat

namespace Binary
variable {f : FloatFormat}

theorem infinity_eq (f : FloatFormat) : f.infinity = 2 ^ f.fractionBits * (2 ^ f.exponentBits - 1) := by
  rw [FloatFormat.infinity, FloatFormat.signPlace, Nat.pow_add, Nat.mul_sub, Nat.mul_one]

/-! ## Values that a format has -/

/-- A magnitude whose exponent is not the least has a leading bit. -/
theorem quanta_normal {x : Binary f} {excess significand : Nat} (leading : 2 ^ f.fractionBits ≤ significand)
    (short : significand < 2 ^ (f.fractionBits + 1))
    (normal : x.magnitude = excess * 2 ^ f.fractionBits + significand) :
    x.quanta = significand * 2 ^ excess := by
  have unit : 0 < 2 ^ f.fractionBits := Nat.two_pow_pos _
  have parts : x.magnitude = (significand - 2 ^ f.fractionBits) + 2 ^ f.fractionBits * (excess + 1) := by
    rw [normal, Nat.mul_succ, Nat.mul_comm]
    omega
  have below : significand - 2 ^ f.fractionBits < 2 ^ f.fractionBits := by
    rw [Nat.pow_succ] at short
    omega
  have exponent : x.magnitude / 2 ^ f.fractionBits = excess + 1 := by
    rw [parts, Nat.add_mul_div_left _ _ unit, Nat.div_eq_of_lt below, Nat.zero_add]
  have fraction : x.magnitude % 2 ^ f.fractionBits = significand - 2 ^ f.fractionBits := by
    rw [parts, Nat.add_mul_mod_self_left, Nat.mod_eq_of_lt below]
  unfold quanta
  dsimp only
  rw [exponent, fraction, if_neg (Nat.succ_ne_zero _), Nat.add_sub_cancel, Nat.sub_add_cancel leading]

/-- A number of quanta with few significant bits, small enough for the exponents, is the value of a number. -/
theorem exists_quanta (negative : Bool) {m k e : Nat} (short : m < 2 ^ (f.fractionBits + 1))
    (small : m * 2 ^ k < 2 ^ (f.fractionBits + e)) (exponents : e + 1 < 2 ^ f.exponentBits) :
    ∃ x : Binary f, x.negative = negative ∧ x.magnitude < f.infinity ∧ x.quanta = m * 2 ^ k := by
  have unit : 0 < 2 ^ f.fractionBits := Nat.two_pow_pos _
  have place := f.infinity_lt_signPlace
  have infinite := infinity_eq f
  by_cases subnormal : m * 2 ^ k < 2 ^ f.fractionBits
  · have finite : m * 2 ^ k < f.infinity := by
      rw [infinite]
      exact Nat.lt_of_lt_of_le subnormal (Nat.le_mul_of_pos_right _ (by omega))
    refine ⟨⟨negative, m * 2 ^ k, Nat.lt_trans finite place⟩, rfl, finite, ?_⟩
    simp [quanta, Nat.div_eq_of_lt subnormal, Nat.mod_eq_of_lt subnormal]
  · have positive : m * 2 ^ k ≠ 0 := by omega
    obtain ⟨excess, log⟩ : ∃ excess, (m * 2 ^ k).log2 = f.fractionBits + excess :=
      Nat.exists_eq_add_of_le ((Nat.le_log2 positive).mpr (by omega))
    obtain ⟨least, most⟩ := (Nat.log2_eq_iff positive).mp log
    -- the bits below the significand are zero
    have apart : excess ≤ k := by
      have bits : m * 2 ^ k < 2 ^ (f.fractionBits + 1 + k) := by
        rw [Nat.pow_add]
        exact (Nat.mul_lt_mul_right (Nat.two_pow_pos k)).mpr short
      have := (Nat.pow_lt_pow_iff_right (by decide : 1 < 2)).mp (Nat.lt_of_le_of_lt least bits)
      omega
    have value : m * 2 ^ k = m * 2 ^ (k - excess) * 2 ^ excess := by
      rw [Nat.mul_assoc, ← Nat.pow_add, Nat.sub_add_cancel apart]
    have leading : 2 ^ f.fractionBits ≤ m * 2 ^ (k - excess) := by
      rw [value, Nat.pow_add] at least
      exact Nat.le_of_mul_le_mul_right least (Nat.two_pow_pos excess)
    have significand : m * 2 ^ (k - excess) < 2 ^ (f.fractionBits + 1) := by
      rw [value, Nat.add_right_comm, Nat.pow_add _ _ excess] at most
      exact Nat.lt_of_mul_lt_mul_right most
    have few : excess < e := by
      have := (Nat.pow_lt_pow_iff_right (by decide : 1 < 2)).mp (Nat.lt_of_le_of_lt least small)
      omega
    have finite : excess * 2 ^ f.fractionBits + m * 2 ^ (k - excess) < f.infinity := by
      calc excess * 2 ^ f.fractionBits + m * 2 ^ (k - excess)
          < excess * 2 ^ f.fractionBits + 2 ^ (f.fractionBits + 1) := Nat.add_lt_add_left significand _
        _ = 2 ^ f.fractionBits * (excess + 2) := by
            rw [Nat.pow_succ, Nat.mul_add, Nat.mul_comm excess]
        _ ≤ f.infinity := by
            rw [infinite]
            exact Nat.mul_le_mul_left _ (by omega)
    refine ⟨⟨negative, _, Nat.lt_trans finite place⟩, rfl, finite, ?_⟩
    rw [value]
    exact quanta_normal leading significand rfl

/-! ## From single to double -/

/-- The quantum of a double is finer by two to the power of this. -/
def finer : Nat := FloatFormat.double.depth - FloatFormat.single.depth

theorem depth_double : FloatFormat.double.depth = FloatFormat.single.depth + finer := rfl

/-- The significant bits of a number are those of its fraction and one in front of them. -/
theorem quanta_short (x : Binary f) : ∃ m k : Nat, m < 2 ^ (f.fractionBits + 1) ∧ x.quanta = m * 2 ^ k := by
  have fraction : x.magnitude % 2 ^ f.fractionBits < 2 ^ f.fractionBits := Nat.mod_lt _ (Nat.two_pow_pos _)
  refine ⟨_, _, ?_, rfl⟩
  rw [Nat.pow_succ]
  split <;> omega

/-- A finite number keeps its sign and its value, and stays finite. -/
theorem quanta_widen {x : Binary32} (finite : x.magnitude < FloatFormat.single.infinity) :
    x.widen.negative = x.negative ∧ x.widen.magnitude < FloatFormat.double.infinity ∧
      x.widen.quanta = x.quanta * 2 ^ finer := by
  obtain ⟨m, k, short, value⟩ := quanta_short x
  have fine : x.quanta * 2 ^ finer = m * 2 ^ (k + finer) := by rw [value, Nat.mul_assoc, Nat.pow_add]
  have places : FloatFormat.double.fractionBits + 1173 = 2 * FloatFormat.single.depth + 2 + finer := rfl
  have fits : m * 2 ^ (k + finer) < 2 ^ (FloatFormat.double.fractionBits + 1173) := by
    rw [← fine, places, Nat.pow_add]
    exact (Nat.mul_lt_mul_right (Nat.two_pow_pos _)).mpr (quanta_lt finite)
  obtain ⟨y, sign, small, same⟩ := exists_quanta (f := .double) x.negative (Nat.lt_trans short (by decide)) fits
    (by decide)
  have nearest : FloatFormat.double.round x.quanta (2 ^ FloatFormat.single.depth) = y.magnitude := by
    rw [← FloatFormat.round_scale _ _ _ (Nat.two_pow_pos finer), fine, ← same, ← Nat.pow_add, ← depth_double]
    exact round_quanta (Nat.le_of_lt small)
  have widened : x.widen = y := by
    have number : x.isNaN = false := by simp [isNaN]; omega
    have bounded : x.isInfinite = false := by simp [isInfinite]; omega
    rw [widen, if_neg (by simp [number]), if_neg (by simp [bounded])]
    cases y
    simp only [ofRatio, Binary.mk.injEq]
    exact ⟨sign.symm, nearest⟩
  rw [widened, same, fine]
  exact ⟨sign, small, rfl⟩

theorem widen_of_infinite {x : Binary32} (infinite : x.magnitude = FloatFormat.single.infinity) :
    x.widen = Binary.infinite .double x.negative := by
  have number : x.isNaN = false := by simp [isNaN, infinite]
  rw [widen, if_neg (by simp [number]), if_pos (by simp [isInfinite, infinite])]

/-! ## NaN -/

theorem isNaN_quietNaN {f : FloatFormat} (some_bit : 0 < f.fractionBits) (negative : Bool) (fraction : Nat) :
    (quietNaN f negative fraction).isNaN := by
  have unit : 0 < 2 ^ f.fractionBits := Nat.two_pow_pos _
  have place := f.signPlace_pos
  have quiet : 2 ^ (f.fractionBits - 1) < 2 ^ f.fractionBits :=
    Nat.pow_lt_pow_right (by decide) (by omega)
  have bits : 2 ^ (f.fractionBits - 1) ||| fraction % 2 ^ f.fractionBits < 2 ^ f.fractionBits :=
    Nat.or_lt_two_pow quiet (Nat.mod_lt _ unit)
  have some_fraction : 0 < 2 ^ (f.fractionBits - 1) ||| fraction % 2 ^ f.fractionBits :=
    Nat.lt_of_lt_of_le (Nat.two_pow_pos (f.fractionBits - 1)) Nat.left_le_or
  have above : f.infinity + (2 ^ (f.fractionBits - 1) ||| fraction % 2 ^ f.fractionBits) < f.signPlace := by
    have parts : f.infinity + 2 ^ f.fractionBits = f.signPlace :=
      Nat.sub_add_cancel (Nat.pow_le_pow_right (by decide) (Nat.le_add_right _ _))
    omega
  have joined : f.infinity ||| (2 ^ (f.fractionBits - 1) ||| fraction % 2 ^ f.fractionBits) =
      f.infinity + (2 ^ (f.fractionBits - 1) ||| fraction % 2 ^ f.fractionBits) := by
    rw [infinity_eq, Nat.two_pow_add_eq_or_of_lt bits]
  have magnitude : (quietNaN f negative fraction).magnitude =
      f.infinity + (2 ^ (f.fractionBits - 1) ||| fraction % 2 ^ f.fractionBits) := by
    simp only [quietNaN, ofWord, Nat.or_assoc, joined]
    cases negative with
    | true => simp [Nat.mod_eq_of_lt above]
    | false => simp [Nat.mod_eq_of_lt above]
  simp only [isNaN, magnitude, decide_eq_true_eq]
  omega

@[simp] theorem isNaN_widen (x : Binary32) : x.widen.isNaN = x.isNaN := by
  by_cases nan : FloatFormat.single.infinity < x.magnitude
  · have is : x.isNaN = true := by simpa [isNaN] using nan
    rw [is, widen, if_pos is]
    exact isNaN_quietNaN (by decide) _ _
  · by_cases infinite : x.magnitude = FloatFormat.single.infinity
    · rw [widen_of_infinite infinite]
      simp [isNaN, Binary.infinite, infinite]
    · obtain ⟨-, finite, -⟩ := quanta_widen (x := x) (by omega)
      simp only [isNaN, decide_eq_decide]
      omega

/-- Numbers are told apart by what they are widened to. -/
theorem eq_of_widen {x y : Binary32} (left : x.isNaN = false) (right : y.isNaN = false)
    (same : x.widen = y.widen) : x = y := by
  simp only [isNaN, decide_eq_false_iff_not, Nat.not_lt] at left right
  have magnitude : x.widen.magnitude = y.widen.magnitude := by rw [same]
  by_cases xInfinite : x.magnitude = FloatFormat.single.infinity
  · by_cases yInfinite : y.magnitude = FloatFormat.single.infinity
    · rw [widen_of_infinite xInfinite, widen_of_infinite yInfinite] at same
      simp only [Binary.infinite, Binary.mk.injEq] at same
      cases x
      cases y
      simp_all
    · obtain ⟨-, finite, -⟩ := quanta_widen (x := y) (by omega)
      rw [widen_of_infinite xInfinite] at magnitude
      simp only [Binary.infinite] at magnitude
      omega
  · obtain ⟨xSign, finite, xValue⟩ := quanta_widen (x := x) (by omega)
    by_cases yInfinite : y.magnitude = FloatFormat.single.infinity
    · rw [widen_of_infinite yInfinite] at magnitude
      simp only [Binary.infinite] at magnitude
      omega
    · obtain ⟨ySign, -, yValue⟩ := quanta_widen (x := y) (by omega)
      have value : x.quanta = y.quanta := by
        rw [same, yValue] at xValue
        exact (Nat.eq_of_mul_eq_mul_right (Nat.two_pow_pos finer) xValue).symm
      have rounded : x.magnitude = y.magnitude := by rw [← round_quanta left, ← round_quanta right, value]
      have sign : x.negative = y.negative := by rw [← xSign, same, ySign]
      cases x
      cases y
      simp_all

/-! ## Up to the bits of NaN -/

/-- The same number, but every NaN is one and the same. -/
def masked (x : Binary f) : Binary f := if x.isNaN then quietNaN f false 0 else x

theorem masked_of_isNaN {x y : Binary f} (left : x.isNaN) (right : y.isNaN) : x.masked = y.masked := by
  rw [masked, masked, if_pos left, if_pos right]

theorem isNaN_masked (some_bit : 0 < f.fractionBits) (x : Binary f) : x.masked.isNaN = x.isNaN := by
  unfold masked
  split
  · rename_i nan
    rw [nan, isNaN_quietNaN some_bit]
  · rfl

/-- What is widened alike, up to the bits of NaN, was alike. -/
theorem masked_of_widen {x y : Binary32} (same : x.widen.masked = y.widen.masked) : x.masked = y.masked := by
  have nan : x.isNaN = y.isNaN := by
    have both := congrArg isNaN same
    rwa [isNaN_masked (by decide), isNaN_masked (by decide), isNaN_widen, isNaN_widen] at both
  cases left : x.isNaN with
  | true => exact masked_of_isNaN left (nan ▸ left)
  | false =>
    have right : y.isNaN = false := nan ▸ left
    rw [masked, masked, isNaN_widen, isNaN_widen, left, right] at same
    rw [eq_of_widen left right same]

end Binary
end DemoTape
