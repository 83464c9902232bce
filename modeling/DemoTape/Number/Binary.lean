/-
# Binary floating-point numbers

A format has so many fraction bits and exponent bits. A number of it is a sign and a magnitude: the exponent
and the fraction read as one natural number. Magnitudes are in the order of the values they stand for, the
magnitude of infinity follows the largest finite one, and all above it are NaN.

Every finite value is a whole number of *quanta*, of which `2 ^ depth` make one. So all arithmetic here is on
natural numbers and exact: `FloatFormat.round` takes the quotient of two of them to the nearest magnitude, of
two equally near ones to the even. `round_scale` says that only the quotient counts, `round_quanta` that a
finite number is the nearest to its own value.
-/

namespace DemoTape
set_option autoImplicit false

-- powers are those of the core library, whatever else is loaded
attribute [local instance (high)] instPowNat

/-- The quotient as the nearest whole number, of two equally near ones the even. -/
def roundDiv (num den : Nat) : Nat :=
  let low := num / den
  let twice := 2 * (num % den)
  if twice < den then low
  else if twice = den then low + low % 2
  else low + 1

theorem roundDiv_scale {c : Nat} (num den : Nat) (positive : 0 < c) :
    roundDiv (num * c) (den * c) = roundDiv num den := by
  have low : num * c / (den * c) = num / den := Nat.mul_div_mul_right _ _ positive
  have rest : num * c % (den * c) = num % den * c := Nat.mul_mod_mul_right _ _ _
  unfold roundDiv
  dsimp only
  rw [low, rest, ← Nat.mul_assoc]
  simp only [Nat.mul_lt_mul_right positive, Nat.mul_left_inj (Nat.ne_of_gt positive)]

theorem roundDiv_exact (n : Nat) {den : Nat} (positive : 0 < den) : roundDiv (n * den) den = n := by
  unfold roundDiv
  dsimp only
  rw [Nat.mul_mod_left, Nat.mul_div_cancel _ positive, if_pos (by omega)]

/-! ## Formats -/

structure FloatFormat where
  fractionBits : Nat
  exponentBits : Nat
  deriving DecidableEq, Repr

namespace FloatFormat

def single : FloatFormat := ⟨23, 8⟩
def double : FloatFormat := ⟨52, 11⟩

/-- The weight of the sign bit: magnitudes lie below it. -/
def signPlace (f : FloatFormat) : Nat := 2 ^ (f.fractionBits + f.exponentBits)

/-- The magnitude of infinity: all exponent bits set, no fraction bit. -/
def infinity (f : FloatFormat) : Nat := f.signPlace - 2 ^ f.fractionBits

/-- The quantum is two to the power of minus this. -/
def depth (f : FloatFormat) : Nat := 2 ^ (f.exponentBits - 1) + f.fractionBits - 2

/-- The magnitude nearest to the quotient; infinity if it is too large. -/
def round (f : FloatFormat) (num den : Nat) : Nat :=
  let quanta := num * 2 ^ f.depth
  let excess := (quanta / den).log2 - f.fractionBits
  min f.infinity (excess * 2 ^ f.fractionBits + roundDiv quanta (den * 2 ^ excess))

theorem round_scale (f : FloatFormat) {c : Nat} (num den : Nat) (positive : 0 < c) :
    f.round (num * c) (den * c) = f.round num den := by
  unfold round
  dsimp only
  rw [Nat.mul_right_comm num, Nat.mul_div_mul_right _ _ positive, Nat.mul_right_comm den,
    roundDiv_scale _ _ positive]

theorem signPlace_pos (f : FloatFormat) : 0 < f.signPlace := Nat.two_pow_pos _

theorem infinity_lt_signPlace (f : FloatFormat) : f.infinity < f.signPlace := by
  have unit : 0 < 2 ^ f.fractionBits := Nat.two_pow_pos _
  have place := f.signPlace_pos
  unfold infinity
  omega

theorem round_le_infinity (f : FloatFormat) (num den : Nat) : f.round num den ≤ f.infinity :=
  Nat.min_le_left _ _

end FloatFormat

/-! ## Numbers -/

structure Binary (f : FloatFormat) where
  negative : Bool
  magnitude : Nat
  magnitude_lt : magnitude < f.signPlace
  deriving DecidableEq, Repr

abbrev Binary32 := Binary FloatFormat.single
abbrev Binary64 := Binary FloatFormat.double

namespace Binary
variable {f : FloatFormat}

def isNaN (x : Binary f) : Bool := f.infinity < x.magnitude
def isInfinite (x : Binary f) : Bool := x.magnitude = f.infinity
def isFinite (x : Binary f) : Bool := x.magnitude < f.infinity

/-- The number spelled by a word: the sign bit above the magnitude. -/
def ofWord (f : FloatFormat) (word : Nat) : Binary f where
  negative := f.signPlace ≤ word
  magnitude := word % f.signPlace
  magnitude_lt := Nat.mod_lt _ f.signPlace_pos

def toWord (x : Binary f) : Nat := (if x.negative then f.signPlace else 0) + x.magnitude

/-- The value of a finite number without its sign, in quanta. -/
def quanta (x : Binary f) : Nat :=
  let unit := 2 ^ f.fractionBits
  let exponent := x.magnitude / unit
  (x.magnitude % unit + if exponent = 0 then 0 else unit) * 2 ^ (exponent - 1)

/-! ### The value of a finite number -/

theorem quanta_eq_zero {x : Binary f} : x.quanta = 0 ↔ x.magnitude = 0 := by
  have unit : 0 < 2 ^ f.fractionBits := Nat.two_pow_pos _
  have parts := Nat.div_add_mod x.magnitude (2 ^ f.fractionBits)
  constructor
  · intro zero
    rw [quanta, Nat.mul_eq_zero] at zero
    rcases zero with zero | zero
    · split at zero
      · rename_i subnormal
        rw [subnormal] at parts
        omega
      · omega
    · exact absurd zero (Nat.ne_of_gt (Nat.two_pow_pos _))
  · intro zero
    simp [quanta, zero]

/-- The magnitude of a finite number has not all exponent bits set. -/
theorem quanta_lt {x : Binary f} (finite : x.magnitude < f.infinity) : x.quanta < 2 ^ (2 * f.depth + 2) := by
  have unit : 0 < 2 ^ f.fractionBits := Nat.two_pow_pos _
  have fraction : x.magnitude % 2 ^ f.fractionBits < 2 ^ f.fractionBits := Nat.mod_lt _ unit
  have exponent : x.magnitude / 2 ^ f.fractionBits + 1 < 2 ^ f.exponentBits := by
    apply Nat.add_lt_of_lt_sub
    rw [Nat.div_lt_iff_lt_mul unit, Nat.sub_mul, Nat.one_mul, Nat.mul_comm, ← Nat.pow_add]
    exact finite
  have bits : 2 ^ f.exponentBits ≤ 2 * 2 ^ (f.exponentBits - 1) := by
    rw [← Nat.pow_succ']
    exact Nat.pow_le_pow_right (by decide) (by omega)
  have half : 0 < 2 ^ (f.exponentBits - 1) := Nat.two_pow_pos _
  calc x.quanta < 2 ^ (f.fractionBits + 1) * 2 ^ (x.magnitude / 2 ^ f.fractionBits - 1) := by
        unfold quanta
        dsimp only
        refine (Nat.mul_lt_mul_right (Nat.two_pow_pos _)).mpr ?_
        rw [Nat.pow_succ]
        split <;> omega
    _ = 2 ^ (f.fractionBits + 1 + (x.magnitude / 2 ^ f.fractionBits - 1)) := (Nat.pow_add _ _ _).symm
    _ ≤ 2 ^ (2 * f.depth + 2) := by
        apply Nat.pow_le_pow_right (by decide)
        unfold FloatFormat.depth
        omega

/-- A finite number is the nearest to its own value. -/
theorem round_quanta {x : Binary f} (finite : x.magnitude ≤ f.infinity) :
    f.round x.quanta (2 ^ f.depth) = x.magnitude := by
  have unit : 0 < 2 ^ f.fractionBits := Nat.two_pow_pos _
  have one : 0 < 2 ^ f.depth := Nat.two_pow_pos _
  have fraction : x.magnitude % 2 ^ f.fractionBits < 2 ^ f.fractionBits := Nat.mod_lt _ unit
  have parts := Nat.div_add_mod x.magnitude (2 ^ f.fractionBits)
  have nearest (excess : Nat) (same : x.quanta.log2 - f.fractionBits = excess) (m : Nat)
      (value : x.quanta = m * 2 ^ excess) :
      f.round x.quanta (2 ^ f.depth) = min f.infinity (excess * 2 ^ f.fractionBits + m) := by
    unfold FloatFormat.round
    dsimp only
    rw [Nat.mul_div_cancel _ one, same, value, Nat.mul_assoc, Nat.mul_comm (2 ^ excess),
      roundDiv_exact _ (Nat.mul_pos one (Nat.two_pow_pos _))]
  by_cases subnormal : x.magnitude / 2 ^ f.fractionBits = 0
  · have value : x.quanta = x.magnitude % 2 ^ f.fractionBits := by simp [quanta, subnormal]
    have small : x.quanta.log2 - f.fractionBits = 0 := by
      rw [value]
      by_cases zero : x.magnitude % 2 ^ f.fractionBits = 0
      · simp [zero]
      · have := (Nat.log2_lt zero).mpr fraction
        omega
    rw [nearest 0 small (x.magnitude % 2 ^ f.fractionBits) (by simpa using value)]
    rw [subnormal] at parts
    omega
  · obtain ⟨e, exponent⟩ := Nat.exists_eq_succ_of_ne_zero subnormal
    have value : x.quanta = (x.magnitude % 2 ^ f.fractionBits + 2 ^ f.fractionBits) * 2 ^ e := by
      simp [quanta, exponent]
    have log : x.quanta.log2 - f.fractionBits = e := by
      have : x.quanta.log2 = f.fractionBits + e := by
        have high : 0 < 2 ^ e := Nat.two_pow_pos e
        rw [value, Nat.log2_eq_iff (Nat.ne_of_gt (Nat.mul_pos (by omega) high))]
        constructor
        · rw [Nat.pow_add]
          exact Nat.mul_le_mul_right _ (by omega)
        · rw [Nat.add_right_comm, Nat.pow_add, Nat.pow_succ]
          exact (Nat.mul_lt_mul_right high).mpr (by omega)
      omega
    rw [nearest e log _ value]
    rw [exponent, Nat.mul_succ, Nat.mul_comm] at parts
    omega

/-! ## Rounded numbers -/

/-- The nearest number to a quotient, with a sign. -/
def ofRatio (f : FloatFormat) (negative : Bool) (num den : Nat) : Binary f where
  negative
  magnitude := f.round num den
  magnitude_lt := Nat.lt_of_le_of_lt (f.round_le_infinity num den) f.infinity_lt_signPlace

def ofInt (f : FloatFormat) (i : Int) : Binary f := ofRatio f (i < 0) i.natAbs 1

def infinite (f : FloatFormat) (negative : Bool) : Binary f := ⟨negative, f.infinity, f.infinity_lt_signPlace⟩

/-- The NaN with these fraction bits; a NaN has at least one, and gets its highest. -/
def quietNaN (f : FloatFormat) (negative : Bool) (fraction : Nat) : Binary f :=
  ofWord f ((if negative then f.signPlace else 0) +
    (f.infinity ||| 2 ^ (f.fractionBits - 1) ||| (fraction % 2 ^ f.fractionBits)))

/-! ## Order -/

/-- Numbers other than NaN are in the order of their keys; both zeros have the key 0. -/
def key (x : Binary f) : Int := if x.negative then -(x.magnitude : Int) else x.magnitude

/-- The order of two numbers; NaN has none. -/
def compare (x y : Binary f) : Option Ordering :=
  if x.isNaN || y.isNaN then none else some (Ord.compare x.key y.key)

/-- Equality of numbers: the zeros are equal, NaN is equal to nothing. -/
def same (x y : Binary f) : Bool := x.compare y = some .eq

/-! ## Arithmetic -/

def div (x y : Binary f) : Binary f :=
  let negative := x.negative != y.negative
  if x.isNaN then x
  else if y.isNaN then y
  else if x.isInfinite then if y.isInfinite then quietNaN f true 0 else infinite f negative
  else if y.isInfinite then ofRatio f negative 0 1
  else if y.quanta = 0 then if x.quanta = 0 then quietNaN f true 0 else infinite f negative
  else ofRatio f negative x.quanta y.quanta

/-- The whole part of a number without its sign, at most `most`; NaN has none. -/
def wholePart (x : Binary f) (most : Nat) : Nat :=
  if x.isNaN then 0
  else if x.isInfinite then most
  else min most (x.quanta / 2 ^ f.depth)

/-- The same number in the wider format. A NaN keeps its sign and fraction and becomes quiet. -/
def widen (x : Binary32) : Binary64 :=
  if x.isNaN then
    quietNaN .double x.negative (x.magnitude % 2 ^ FloatFormat.single.fractionBits *
      2 ^ (FloatFormat.double.fractionBits - FloatFormat.single.fractionBits))
  else if x.isInfinite then infinite .double x.negative
  else ofRatio .double x.negative x.quanta (2 ^ FloatFormat.single.depth)

end Binary
end DemoTape
