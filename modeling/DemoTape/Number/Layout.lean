/-
# Layouts of numbers

A layout says how the shortest decimal of a number is put into text: which exponents are written
positionally, what marks a whole number, how an exponent is signed, and what stands for the numbers that have
no digits. The library writes numbers in four layouts: `plain` in readable output, `literal` in queries, and
one for each width in JSON.
-/
import DemoTape.Number.Shortest

namespace DemoTape
set_option autoImplicit false

-- powers are those of the core library, whatever else is loaded
attribute [local instance (high)] instPowNat

structure Layout where
  /-- Whether a number whose first digit has this exponent is written without one. -/
  positional : Int → Bool
  /-- What follows a whole number. -/
  wholeMark : String
  /-- The sign of a positive exponent. -/
  plusMark : String
  tie : Tie
  nan : String
  infinity : String
  negativeInfinity : String

namespace Layout

/-- Never an exponent, and no mark on whole numbers. -/
def plain : Layout where
  positional := fun _ => true
  wholeMark := ""
  plusMark := ""
  tie := .up
  nan := "NaN"
  infinity := "inf"
  negativeInfinity := "-inf"

/-- Whole numbers have a point, so that they read back as floats. -/
def literal : Layout where
  positional := fun e => -4 ≤ e && e ≤ 15
  wholeMark := ".0"
  plusMark := ""
  tie := .up
  nan := "NaN"
  infinity := "inf"
  negativeInfinity := "-inf"

def jsonDouble : Layout where
  positional := fun e => -5 ≤ e && e ≤ 15
  wholeMark := ".0"
  plusMark := "+"
  tie := .toEven
  nan := "null"
  infinity := "null"
  negativeInfinity := "null"

def jsonSingle : Layout where
  positional := fun e => -6 ≤ e && e ≤ 12
  wholeMark := ".0"
  plusMark := "+"
  tie := .toEven
  nan := "null"
  infinity := "null"
  negativeInfinity := "null"

/-! ## Writing -/

def zeros (n : Nat) : String := String.ofList (List.replicate n '0')

/-- The digits with the point behind the first `exponent + 1` places. -/
def positionalText (layout : Layout) (digits : List Char) (exponent : Int) : String :=
  let places := (exponent + 1).toNat
  if exponent < 0 then "0." ++ zeros (-exponent - 1).toNat ++ String.ofList digits
  else if digits.length ≤ places then
    String.ofList digits ++ zeros (places - digits.length) ++ layout.wholeMark
  else String.ofList (digits.take places) ++ "." ++ String.ofList (digits.drop places)

/-- One digit, the others behind a point, and the exponent. -/
def exponentText (layout : Layout) (digits : List Char) (exponent : Int) : String :=
  let first := String.ofList (digits.take 1)
  let others := if digits.length ≤ 1 then "" else "." ++ String.ofList (digits.drop 1)
  let sign := if exponent < 0 then "-" else layout.plusMark
  first ++ others ++ "e" ++ sign ++ toString exponent.natAbs

def decimalText (layout : Layout) (d : Decimal) : String :=
  let digits := Nat.toDigits 10 d.digits
  let exponent : Int := digits.length - 1 + d.exponent
  if layout.positional exponent then layout.positionalText digits exponent
  else layout.exponentText digits exponent

/-- The text of a number. -/
def write (layout : Layout) {f : FloatFormat} (x : Binary f) : String :=
  if x.isNaN then layout.nan
  else if x.isInfinite then if x.negative then layout.negativeInfinity else layout.infinity
  else (if x.negative then "-" else "") ++ layout.decimalText (Shortest.decimal layout.tie x)

end Layout

/-! ## Fixed places -/

/-- The number with four places, of two equally near texts the one with an even last digit. -/
def Binary.fourPlaces {f : FloatFormat} (x : Binary f) : String :=
  let sign := if x.negative then "-" else ""
  if x.isNaN then "NaN"
  else if x.isInfinite then sign ++ "inf"
  else
    let scaled := roundDiv (x.quanta * 10000) (2 ^ f.depth)
    let places := toString (scaled % 10000)
    sign ++ toString (scaled / 10000) ++ "." ++ Layout.zeros (4 - places.length) ++ places

end DemoTape
