/-
# The numbers that floats are

A finite float is a whole number of quanta with a sign, so it is a rational number (`Binary.toRat`), and the
two infinities are below and above all of these (`Binary.number`). The order of two floats is that of their
numbers (`Binary.compare_eq_cmp`), and an integer goes to a float that is nearest to it
(`Binary.nearest_ofInt`): to itself, if it has at most 53 bits (`Binary.held_of_small`), and always to one
that is finite, if it has 64 (`Binary.isFinite_ofInt`). Rounding keeps the order of different numbers
(`Binary.Rounded.mono`).
-/
import DemoTape.Proofs.Number.Nearest
import Mathlib.Algebra.Order.Field.Rat
import Mathlib.Algebra.Order.Field.Basic
import Mathlib.Order.Compare
import Mathlib.Order.WithBot
import Mathlib.Tactic.Linarith

namespace DemoTape
set_option autoImplicit false

-- powers are those of the core library, whatever else is loaded
attribute [local instance (high)] instPowNat

/-- The rational numbers between two infinities. -/
abbrev Extended := WithBot (WithTop ℚ)

namespace Extended

/-- A rational number as what is between the infinities. -/
def ofRat (q : ℚ) : Extended := ((q : WithTop ℚ) : WithBot (WithTop ℚ))

@[simp] theorem ofRat_inj {p q : ℚ} : ofRat p = ofRat q ↔ p = q := by
  simp [ofRat]

@[simp] theorem ofRat_lt_ofRat {p q : ℚ} : ofRat p < ofRat q ↔ p < q := by
  rw [ofRat, ofRat, WithBot.coe_lt_coe, WithTop.coe_lt_coe]

@[simp] theorem ofRat_le_ofRat {p q : ℚ} : ofRat p ≤ ofRat q ↔ p ≤ q := by
  rw [ofRat, ofRat, WithBot.coe_le_coe, WithTop.coe_le_coe]

theorem bot_lt_ofRat (q : ℚ) : ⊥ < ofRat q := WithBot.bot_lt_coe _

theorem ofRat_lt_top (q : ℚ) : ofRat q < ⊤ := WithBot.coe_lt_coe.mpr (WithTop.coe_lt_top q)

end Extended

/-! ## The number of a float -/

namespace Binary
variable {f : FloatFormat} {x y : Binary f}

/-- The quanta of a float with its sign. -/
def signedQuanta (x : Binary f) : Int := if x.negative then -(x.quanta : Int) else x.quanta

/-- The number that a finite float is. -/
def toRat (x : Binary f) : ℚ := x.signedQuanta / (2 ^ f.depth : Nat)

/-- The number that a float is, unless it is a NaN. -/
def number (x : Binary f) : Extended :=
  if x.isFinite then .ofRat x.toRat else if x.negative then ⊥ else ⊤

theorem natAbs_signedQuanta (x : Binary f) : x.signedQuanta.natAbs = x.quanta := by
  unfold signedQuanta
  split <;> omega

theorem number_of_finite (finite : x.isFinite) : x.number = .ofRat x.toRat := if_pos finite

theorem quantum_pos (f : FloatFormat) : (0 : ℚ) < (2 ^ f.depth : Nat) :=
  Nat.cast_pos.mpr (Nat.two_pow_pos _)

theorem toRat_lt_toRat : x.toRat < y.toRat ↔ x.signedQuanta < y.signedQuanta := by
  rw [toRat, toRat, div_lt_div_iff_of_pos_right (quantum_pos f), Int.cast_lt]

theorem key_lt_key (left : x.isFinite) (right : y.isFinite) :
    x.key < y.key ↔ x.signedQuanta < y.signedQuanta := by
  simp only [isFinite, decide_eq_true_eq] at left right
  have less := quanta_lt_quanta (Nat.le_of_lt left) (Nat.le_of_lt right)
  have more := quanta_lt_quanta (Nat.le_of_lt right) (Nat.le_of_lt left)
  have zero := @quanta_eq_zero f x
  have zero' := @quanta_eq_zero f y
  unfold key signedQuanta
  split <;> split <;> omega

theorem number_of_infinite (infinite : x.isFinite = false) : x.number = if x.negative then ⊥ else ⊤ := by
  rw [number, infinite, if_neg Bool.false_ne_true]

theorem bot_or_top (infinite : x.isFinite = false) : x.number = ⊥ ∨ x.number = ⊤ := by
  rw [number_of_infinite infinite]
  cases x.negative with
  | true => exact .inl rfl
  | false => exact .inr rfl

/-- Only a finite float is a rational number. -/
theorem finite_of_number {q : ℚ} (value : x.number = .ofRat q) : x.isFinite ∧ x.toRat = q := by
  cases finite : x.isFinite with
  | true => exact ⟨rfl, Extended.ofRat_inj.mp ((number_of_finite finite).symm.trans value)⟩
  | false =>
    rcases bot_or_top finite with lowest | highest
    · exact absurd (lowest.symm.trans value) (ne_of_lt (Extended.bot_lt_ofRat q))
    · exact absurd (highest.symm.trans value) (ne_of_gt (Extended.ofRat_lt_top q))

theorem isNaN_of_finite (finite : x.isFinite) : x.isNaN = false := by
  simp only [isFinite, isNaN, decide_eq_true_eq, decide_eq_false_iff_not] at finite ⊢
  omega

theorem key_of_finite (finite : x.isFinite) : -(f.infinity : Int) < x.key ∧ x.key < f.infinity := by
  simp only [isFinite, decide_eq_true_eq] at finite
  unfold key
  split <;> omega

theorem key_of_infinite (number : x.isNaN = false) (infinite : x.isFinite = false) :
    x.key = if x.negative then -(f.infinity : Int) else f.infinity := by
  simp only [isNaN, isFinite, decide_eq_false_iff_not] at number infinite
  rw [key, show x.magnitude = f.infinity by omega]

/-- The keys are in the order of the numbers. -/
theorem number_lt_number (some_finite : 0 < f.infinity) (left : x.isNaN = false) (right : y.isNaN = false) :
    x.number < y.number ↔ x.key < y.key := by
  cases xFinite : x.isFinite with
  | true =>
    have within := key_of_finite xFinite
    rw [number_of_finite xFinite]
    cases yFinite : y.isFinite with
    | true =>
      rw [number_of_finite yFinite, Extended.ofRat_lt_ofRat, toRat_lt_toRat, key_lt_key xFinite yFinite]
    | false =>
      rw [number_of_infinite yFinite, key_of_infinite right yFinite]
      cases y.negative with
      | true => exact iff_of_false not_lt_bot (by simp; omega)
      | false => exact iff_of_true (Extended.ofRat_lt_top _) within.2
  | false =>
    rw [number_of_infinite xFinite, key_of_infinite left xFinite]
    cases yFinite : y.isFinite with
    | true =>
      have within := key_of_finite yFinite
      rw [number_of_finite yFinite]
      cases x.negative with
      | true => exact iff_of_true (Extended.bot_lt_ofRat _) within.1
      | false => exact iff_of_false not_top_lt (by simp; omega)
    | false =>
      rw [number_of_infinite yFinite, key_of_infinite right yFinite]
      cases x.negative <;> cases y.negative
      · exact iff_of_false (lt_irrefl _) (Int.lt_irrefl _)
      · exact iff_of_false not_top_lt (by simp)
      · exact iff_of_true bot_lt_top (by simp; omega)
      · exact iff_of_false (lt_irrefl _) (Int.lt_irrefl _)

/-- **The order of two floats is that of the numbers they are.** -/
theorem compare_eq_cmp (some_finite : 0 < f.infinity) (left : x.isNaN = false) (right : y.isNaN = false) :
    x.compare y = some (cmp x.number y.number) := by
  have keys : cmp x.number y.number = cmp x.key y.key := by
    unfold cmp cmpUsing
    simp only [number_lt_number some_finite left right, number_lt_number some_finite right left]
  rw [compare, left, right, keys, cmp_eq_compare]
  rfl

/-! ## The nearest number -/

/-- Whether this is a finite number and no other is nearer. -/
def Nearest (x : Binary f) (q : ℚ) : Prop :=
  x.isFinite ∧ ∀ y : Binary f, y.isFinite → |x.toRat - q| ≤ |y.toRat - q|

theorem nearest_self (finite : x.isFinite) : x.Nearest x.toRat := by
  refine ⟨finite, fun y _ => ?_⟩
  rw [sub_self, abs_zero]
  exact abs_nonneg _

/-- What is nearest to a number of the format is that number. -/
theorem Nearest.toRat_eq {q : ℚ} (nearest : x.Nearest q) (finite : y.isFinite) (value : y.toRat = q) :
    x.toRat = q := by
  have none_left := nearest.2 y finite
  rw [value, sub_self, abs_zero] at none_left
  exact sub_eq_zero.mp (abs_nonpos_iff.mp none_left)

/-- What is nearest to the lesser is not the greater. -/
theorem Nearest.mono {p q : ℚ} (left : x.Nearest p) (right : y.Nearest q) (less : p < q) : x.toRat ≤ y.toRat := by
  have here := left.2 y right.1
  have there := right.2 x left.1
  -- otherwise the lesser is in the upper half of the gap between the two, and the greater in the lower
  refine le_of_not_gt fun above => ?_
  have upper : x.toRat + y.toRat ≤ 2 * p := by
    have := le_abs_self (x.toRat - p)
    rcases abs_cases (y.toRat - p) with ⟨value, -⟩ | ⟨value, -⟩ <;> linarith
  have lower : 2 * q ≤ x.toRat + y.toRat := by
    have := neg_le_abs (y.toRat - q)
    rcases abs_cases (x.toRat - q) with ⟨value, -⟩ | ⟨value, -⟩ <;> linarith
  linarith

/-- Whether a number is rounded to this one; to an infinity only if it is that infinity. -/
inductive Rounded (x : Binary f) : Extended → Prop
  | nearest {q : ℚ} (nearest : x.Nearest q) : Rounded x (.ofRat q)
  | infinite (infinite : x.isFinite = false) : Rounded x x.number

theorem rounded_self (x : Binary f) : x.Rounded x.number := by
  cases finite : x.isFinite with
  | true =>
    rw [number_of_finite finite]
    exact .nearest (nearest_self finite)
  | false => exact .infinite finite

/-- Rounding keeps the order. The numbers have to differ: one that is in the middle of two floats could go to the
upper of them here and to the lower there. -/
theorem Rounded.mono {p q : Extended} (left : x.Rounded p) (right : y.Rounded q) (less : p < q) :
    x.number ≤ y.number := by
  cases left with
  | infinite infinite =>
    rcases bot_or_top infinite with lowest | highest
    · exact lowest ▸ bot_le
    · exact absurd (highest ▸ less) not_top_lt
  | nearest here =>
    cases right with
    | infinite infinite =>
      rcases bot_or_top infinite with lowest | highest
      · exact absurd (lowest ▸ less) not_lt_bot
      · exact highest ▸ le_top
    | nearest there =>
      rw [number_of_finite here.1, number_of_finite there.1, Extended.ofRat_le_ofRat]
      exact here.mono there (Extended.ofRat_lt_ofRat.mp less)

/-! ## Integers -/

theorem magnitude_ofInt (f : FloatFormat) (i : Int) :
    (ofInt f i).magnitude = f.round (i.natAbs * 2 ^ f.depth) (2 ^ f.depth) := by
  have scaled := f.round_scale i.natAbs 1 (Nat.two_pow_pos f.depth)
  rw [Nat.one_mul] at scaled
  exact scaled.symm

theorem nearest_signedQuanta {i : Int} (finite : (ofInt f i).isFinite) (y : Binary f) :
    ((ofInt f i).signedQuanta - i * (2 ^ f.depth : Nat)).natAbs ≤
      (y.signedQuanta - i * (2 ^ f.depth : Nat)).natAbs := by
  have nearest (k : Int) (value : k.natAbs = y.quanta) :=
    nearest_quanta (magnitude_ofInt f i) (of_decide_eq_true finite) y value
  have size := natAbs_signedQuanta y
  have whole : ((i.natAbs * 2 ^ f.depth : Nat) : Int) = |i| * (2 ^ f.depth : Nat) := by
    rw [Int.natCast_mul, Int.natCast_natAbs]
  rcases Int.lt_or_le i 0 with negative | positive
  · have sign : (ofInt f i).signedQuanta = -((ofInt f i).quanta : Int) := if_pos (decide_eq_true negative)
    have mirrored := nearest (-y.signedQuanta) (by rw [Int.natAbs_neg, size])
    rw [whole, abs_of_neg negative, Int.neg_mul] at mirrored
    omega
  · have sign : (ofInt f i).signedQuanta = (ofInt f i).quanta := if_neg (by simp [ofInt, ofRatio, positive])
    have same := nearest y.signedQuanta size
    rw [whole, abs_of_nonneg positive] at same
    omega

theorem toRat_sub (y : Binary f) (i : Int) :
    |y.toRat - i| = ((y.signedQuanta - i * (2 ^ f.depth : Nat)).natAbs : ℚ) / (2 ^ f.depth : Nat) := by
  have positive := quantum_pos f
  have scaled : y.toRat - i = (y.signedQuanta - i * (2 ^ f.depth : Nat) : Int) / (2 ^ f.depth : Nat) := by
    rw [toRat, Int.cast_sub, Int.cast_mul, Int.cast_natCast, sub_div, mul_div_cancel_right₀ _ (ne_of_gt positive)]
  rw [scaled, abs_div, abs_of_pos positive, Nat.cast_natAbs, Int.cast_abs]

/-- **An integer goes to the nearest number.** -/
theorem nearest_ofInt {i : Int} (finite : (ofInt f i).isFinite) : (ofInt f i).Nearest i := by
  refine ⟨finite, fun y _ => ?_⟩
  rw [toRat_sub, toRat_sub, div_le_div_iff_of_pos_right (quantum_pos f), Nat.cast_le]
  exact nearest_signedQuanta finite y

/-- An integer of 64 bits is not rounded to infinity. -/
theorem isFinite_ofInt (i : Int64) : (ofInt .double i.toInt).isFinite := by
  have bound : i.toInt.natAbs ≤ 2 ^ 63 := by
    have := i.toInt_lt
    have := i.le_toInt
    omega
  have most : FloatFormat.double.round (2 ^ 63 * 2 ^ FloatFormat.double.depth) (2 ^ FloatFormat.double.depth) <
      FloatFormat.double.infinity := by decide +kernel
  refine decide_eq_true (Nat.lt_of_le_of_lt ?_ most)
  rw [magnitude_ofInt]
  exact FloatFormat.round_mono _ (Nat.mul_le_mul_right _ bound)

/-! ## Numbers that are held -/

/-- Whether some float holds this number. -/
def Held (p : Extended) : Prop := ∃ x : Binary64, x.isNaN = false ∧ x.number = p

/-- Some float holds each integer that needs no more bits than a significand has. -/
theorem held_of_small {i : Int} (small : i.natAbs ≤ 2 ^ 53) : Held (.ofRat i) := by
  obtain ⟨m, k, short, value⟩ : ∃ m k : Nat, m < 2 ^ 53 ∧ i.natAbs * 2 ^ FloatFormat.double.depth = m * 2 ^ k := by
    rcases Nat.lt_or_eq_of_le small with less | same
    · exact ⟨_, _, less, rfl⟩
    · exact ⟨1, 53 + FloatFormat.double.depth, by decide, by rw [same, Nat.one_mul, Nat.pow_add]⟩
  have fits : m * 2 ^ k < 2 ^ (FloatFormat.double.fractionBits + 1076) := by
    rw [← value, show FloatFormat.double.fractionBits + 1076 = 54 + FloatFormat.double.depth from rfl, Nat.pow_add]
    exact (Nat.mul_lt_mul_right (Nat.two_pow_pos _)).mpr (Nat.lt_of_le_of_lt small (by decide))
  obtain ⟨x, sign, finite, quanta⟩ := exists_quanta (f := .double) (i < 0) short fits (by decide)
  have signed : x.signedQuanta = i * (2 ^ FloatFormat.double.depth : Nat) := by
    rw [signedQuanta, sign, quanta, ← value, Int.natCast_mul, Int.natCast_natAbs, ← Int.neg_mul]
    by_cases negative : i < 0
    · rw [if_pos (decide_eq_true negative), abs_of_neg negative, Int.neg_neg]
    · rw [if_neg (by simpa using negative), abs_of_nonneg (Int.not_lt.mp negative)]
  have finite : x.isFinite := decide_eq_true finite
  refine ⟨x, isNaN_of_finite finite, ?_⟩
  rw [number_of_finite finite, toRat, signed, Int.cast_mul, Int.cast_natCast,
    mul_div_cancel_right₀ _ (ne_of_gt (quantum_pos _))]

end Binary
end DemoTape
