/-
# Decimal numerals

A decimal is a whole number times a power of ten. `Decimal.read?` reads the numerals of the query language:
an optional sign, digits with an optional point among them, at least one digit in all, and an optional
exponent. `FloatFormat.ofDecimal` takes a decimal to the nearest magnitude of a format, exactly, and decides
very large and very small exponents without computing their powers. `ofDecimal_shift` moves a zero from the end
of the digits to the exponent.
-/
import DemoTape.Number.Binary

namespace DemoTape
set_option autoImplicit false

-- powers are those of the core library, whatever else is loaded
attribute [local instance (high)] instPowNat

structure Decimal where
  digits : Nat
  exponent : Int
  deriving DecidableEq, Repr

/-- How many decimal digits a number has; zero has one. -/
def digitCount (n : Nat) : Nat := (Nat.toDigits 10 n).length

theorem digitCount_mul_ten {n : Nat} (positive : 0 < n) : digitCount (n * 10) = digitCount n + 1 := by
  have := Nat.toDigits_of_base_le (b := 10) (n := n * 10) (by decide) (by omega)
  unfold digitCount
  rw [this, Nat.mul_div_cancel _ (by decide), List.length_append]
  rfl

theorem digitCount_le_iff {n k : Nat} (positive : 0 < k) : digitCount n ≤ k ↔ n < 10 ^ k :=
  Nat.length_toDigits_le_iff (by decide) positive

/-- The value of a list of decimal digits. -/
def digitsValue (text : List Char) : Nat := Nat.ofDigitChars 10 text 0

namespace FloatFormat

/-- The magnitude nearest to a decimal. With `top` digits in front of the point, it is at least
`10 ^ (top - 1)` and less than `10 ^ top`, which settles it outside the range of the format. -/
def ofDecimal (f : FloatFormat) (d : Decimal) : Nat :=
  let top := digitCount d.digits + d.exponent
  if d.digits = 0 ∨ top < -(f.depth : Int) then 0
  else if (f.depth : Int) + 1 < top then f.infinity
  else f.round (d.digits * 10 ^ d.exponent.toNat) (10 ^ (-d.exponent).toNat)

/-- A zero at the end of the digits can go to the exponent. -/
theorem ofDecimal_shift (f : FloatFormat) (digits : Nat) (exponent : Int) :
    f.ofDecimal ⟨digits * 10, exponent⟩ = f.ofDecimal ⟨digits, exponent + 1⟩ := by
  by_cases zero : digits = 0
  · simp [ofDecimal, zero]
  · have top : ((digitCount (digits * 10) : Nat) : Int) + exponent = digitCount digits + (exponent + 1) := by
      rw [digitCount_mul_ten (Nat.pos_of_ne_zero zero)]
      omega
    have same : f.round (digits * 10 * 10 ^ exponent.toNat) (10 ^ (-exponent).toNat) =
        f.round (digits * 10 ^ (exponent + 1).toNat) (10 ^ (-(exponent + 1)).toNat) := by
      by_cases negative : exponent < 0
      · have up : (exponent + 1).toNat = 0 := by omega
        have here : exponent.toNat = 0 := by omega
        have down : (-exponent).toNat = (-(exponent + 1)).toNat + 1 := by omega
        rw [up, here, down, Nat.pow_succ, Nat.pow_zero, Nat.mul_one, Nat.mul_one,
          f.round_scale _ _ (by decide)]
      · have up : (exponent + 1).toNat = exponent.toNat + 1 := by omega
        have down : (-exponent).toNat = 0 := by omega
        have further : (-(exponent + 1)).toNat = 0 := by omega
        rw [up, down, further, Nat.pow_succ, Nat.mul_comm (10 ^ exponent.toNat), Nat.mul_assoc]
    unfold ofDecimal
    dsimp only
    rw [top, same]
    simp only [zero, Nat.mul_eq_zero, show ¬(10 : Nat) = 0 by decide, or_false]

theorem ofDecimal_le_infinity (f : FloatFormat) (d : Decimal) : f.ofDecimal d ≤ f.infinity := by
  unfold ofDecimal
  dsimp only
  split
  · exact Nat.zero_le _
  · split
    · exact Nat.le_refl _
    · exact f.round_le_infinity _ _

end FloatFormat

/-- The number nearest to a decimal, with a sign. -/
def Binary.ofDecimal (f : FloatFormat) (negative : Bool) (d : Decimal) : Binary f where
  negative
  magnitude := f.ofDecimal d
  magnitude_lt := Nat.lt_of_le_of_lt (f.ofDecimal_le_infinity d) f.infinity_lt_signPlace

/-! ## Numerals -/

/-- A sign in front of a numeral; none means plus. -/
def readSign : List Char → Bool × List Char
  | '-' :: rest => (true, rest)
  | '+' :: rest => (false, rest)
  | text => (false, text)

/-- A whole number, written as one digit or more. -/
def readWhole? (text : List Char) : Option Nat :=
  if text ≠ [] ∧ text.all Char.isDigit then some (digitsValue text) else none

/-- A whole number with an optional sign. -/
def readInt? (text : List Char) : Option Int :=
  let (negative, digits) := readSign text
  (readWhole? digits).map fun n => if negative then -(n : Int) else n

/-- The exponent behind a numeral: nothing at all, or `e` or `E` and a whole number. -/
def readExponent? : List Char → Option Int
  | [] => some 0
  | mark :: rest => if mark = 'e' ∨ mark = 'E' then readInt? rest else none

/-- The sign and the decimal that a numeral spells. -/
def Decimal.read? (text : List Char) : Option (Bool × Decimal) :=
  let (negative, text) := readSign text
  let whole := text.takeWhile Char.isDigit
  let text := text.dropWhile Char.isDigit
  let (fraction, text) := match text with
    | '.' :: rest => (rest.takeWhile Char.isDigit, rest.dropWhile Char.isDigit)
    | text => ([], text)
  if whole ++ fraction = [] then none
  else (readExponent? text).map fun exponent =>
    (negative, ⟨digitsValue (whole ++ fraction), exponent - fraction.length⟩)

/-- The finite number nearest to what a numeral spells. -/
def Binary.read? (f : FloatFormat) (text : List Char) : Option (Binary f) :=
  match Decimal.read? text with
  | none => none
  | some (negative, d) =>
    let x := Binary.ofDecimal f negative d
    if x.isFinite then some x else none

end DemoTape
