/-
# Numerals that read back

A `Numeral` is a sign, digits, perhaps a point with further digits, and perhaps an exponent. It reads as the
decimal that it spells (`Numeral.read?_text`). The `literal` layout writes every decimal as a numeral whose
decimal goes to the same magnitude of every format (`spells_decimalText`), so every finite number that it
writes reads back to the bit (`exists_write`).
-/
import DemoTape.Number.Layout
import DemoTape.Proofs.Text.Runs

namespace DemoTape
set_option autoImplicit false

-- powers are those of the core library, whatever else is loaded
attribute [local instance (high)] instPowNat

open Text (Stops stops_nil stops_cons)

/-! ## Digits -/

theorem digitsValue_append (front back : List Char) :
    digitsValue (front ++ back) = 10 ^ back.length * digitsValue front + digitsValue back := by
  rw [digitsValue, Nat.ofDigitChars_append, Nat.ofDigitChars_eq_ofDigitChars_zero]
  rfl

theorem digitsValue_toDigits (n : Nat) : digitsValue (Nat.toDigits 10 n) = n := Nat.ofDigitChars_ten_toDigits

theorem digitsValue_zeros (n : Nat) : digitsValue (List.replicate n '0') = 0 := by
  rw [digitsValue, Nat.ofDigitChars_replicate_zero, Nat.mul_zero]

theorem toDigits_digits {n : Nat} : ∀ c ∈ Nat.toDigits 10 n, c.isDigit := fun _ mem =>
  Nat.isDigit_of_mem_toDigits (b := 10) (n := n) (by decide) (by decide) mem

theorem zeros_digits (k : Nat) : ∀ c ∈ List.replicate k '0', c.isDigit := by
  intro c mem
  rw [(List.mem_replicate.mp mem).2]
  decide

/-- Zeros at the end of the digits can go to the exponent. -/
theorem FloatFormat.ofDecimal_shifts (f : FloatFormat) (digits places : Nat) (exponent : Int) :
    f.ofDecimal ⟨digits * 10 ^ places, exponent⟩ = f.ofDecimal ⟨digits, exponent + places⟩ := by
  induction places generalizing exponent with
  | zero => simp
  | succ places ih =>
    rw [Nat.pow_succ, ← Nat.mul_assoc, f.ofDecimal_shift, ih]
    congr 2
    omega

/-! ## Whole numbers -/

def sign (negative : Bool) : List Char := if negative then ['-'] else []

/-- A whole number, with a sign only when it is negative. -/
def signed (i : Int) : List Char := sign (i < 0) ++ Nat.toDigits 10 i.natAbs

theorem toList_toString_int (i : Int) : (toString i).toList = signed i := by
  cases i with
  | ofNat n =>
    show (Nat.repr n).toList = _
    simp [signed, sign, Nat.toList_repr]
  | negSucc n =>
    show ("-" ++ Nat.repr (n + 1)).toList = _
    simp [signed, sign, Nat.toList_repr, Int.negSucc_lt_zero]

theorem readSign_sign (negative : Bool) {text : List Char} (digits : ∀ c ∈ text.head?, c.isDigit) :
    readSign (sign negative ++ text) = (negative, text) := by
  cases negative with
  | true => rfl
  | false =>
    show readSign text = _
    unfold readSign
    split
    · cases digits _ rfl
    · cases digits _ rfl
    · rfl

theorem head_digits (n : Nat) (rest : List Char) : ∀ c ∈ (Nat.toDigits 10 n ++ rest).head?, c.isDigit := by
  cases digits : Nat.toDigits 10 n with
  | nil => exact absurd digits Nat.toDigits_ne_nil
  | cons first later =>
    have here : first.isDigit := toDigits_digits (n := n) first (by simp [digits])
    simpa using here

theorem readWhole?_toDigits (n : Nat) : readWhole? (Nat.toDigits 10 n) = some n := by
  rw [readWhole?, if_pos ⟨Nat.toDigits_ne_nil, List.all_eq_true.mpr toDigits_digits⟩, digitsValue_toDigits]

theorem readInt?_signed (i : Int) : readInt? (signed i) = some i := by
  have digits := head_digits i.natAbs []
  rw [List.append_nil] at digits
  rw [readInt?, signed, readSign_sign _ digits]
  dsimp only
  rw [readWhole?_toDigits]
  show some (if decide (i < 0) = true then -(i.natAbs : Int) else i.natAbs) = some i
  split
  · rename_i negative
    rw [decide_eq_true_eq] at negative
    congr
    omega
  · rename_i positive
    rw [decide_eq_true_eq] at positive
    congr
    omega

/-! ## Numerals -/

structure Numeral where
  negative : Bool
  whole : List Char
  fraction : Option (List Char)
  exponent : Option Int
  whole_ne_nil : whole ≠ []
  whole_digits : ∀ c ∈ whole, c.isDigit
  fraction_digits : ∀ c ∈ fraction.getD [], c.isDigit

namespace Numeral

/-- A point and the digits behind it. -/
def pointText : Option (List Char) → List Char
  | none => []
  | some digits => '.' :: digits

def exponentText : Option Int → List Char
  | none => []
  | some e => 'e' :: signed e

def text (n : Numeral) : List Char :=
  sign n.negative ++ (n.whole ++ (pointText n.fraction ++ exponentText n.exponent))

def decimal (n : Numeral) : Decimal :=
  ⟨digitsValue (n.whole ++ n.fraction.getD []), n.exponent.getD 0 - (n.fraction.getD []).length⟩

/-- Whether it spells a float. -/
def Marked (n : Numeral) : Prop := n.fraction.isSome ∨ n.exponent.isSome

theorem readExponent?_exponentText (e : Option Int) : readExponent? (exponentText e) = some (e.getD 0) := by
  cases e with
  | none => rfl
  | some e => simp [exponentText, readExponent?, readInt?_signed]

theorem stops_exponentText (e : Option Int) : Stops Char.isDigit (exponentText e) := by
  cases e with
  | none => exact stops_nil
  | some e => exact stops_cons.mpr (by decide)

/-- A numeral reads as the decimal that it spells. -/
theorem read?_text (n : Numeral) : Decimal.read? n.text = some (n.negative, n.decimal) := by
  obtain ⟨negative, whole, fraction, exponent, nonempty, digits, further⟩ := n
  have unsigned : ∀ c ∈ (whole ++ (pointText fraction ++ exponentText exponent)).head?, c.isDigit := by
    cases whole with
    | nil => exact absurd rfl nonempty
    | cons first later => simpa using digits first (by simp)
  have ends : Stops Char.isDigit (pointText fraction ++ exponentText exponent) := by
    cases fraction with
    | none => exact stops_exponentText exponent
    | some fraction => exact stops_cons.mpr (by decide)
  rw [Decimal.read?, text, readSign_sign _ unsigned]
  dsimp only
  rw [Text.takeWhile_of_stops digits ends, Text.dropWhile_of_stops digits ends]
  have value : (if whole ++ fraction.getD [] = [] then none
      else (readExponent? (exponentText exponent)).map fun exponent =>
        (negative, (⟨digitsValue (whole ++ fraction.getD []), exponent - (fraction.getD []).length⟩ : Decimal))) =
      some (negative, decimal ⟨negative, whole, fraction, exponent, nonempty, digits, further⟩) := by
    rw [if_neg (by simp [nonempty]), readExponent?_exponentText]
    rfl
  cases fraction with
  | none => cases exponent <;> exact value
  | some fraction =>
    have further : ∀ c ∈ fraction, c.isDigit := further
    simp only [pointText, List.cons_append]
    rw [Text.takeWhile_of_stops further (stops_exponentText exponent),
      Text.dropWhile_of_stops further (stops_exponentText exponent)]
    exact value

theorem mem_sign {c : Char} {negative : Bool} (mem : c ∈ sign negative) : c = '-' := by
  cases negative with
  | true => exact List.mem_singleton.mp mem
  | false => cases mem

theorem mem_signed {c : Char} {i : Int} (mem : c ∈ signed i) : c.isDigit ∨ c = '-' := by
  rcases List.mem_append.mp mem with mem | mem
  · exact .inr (mem_sign mem)
  · exact .inl (toDigits_digits c mem)

theorem signed_cons (i : Int) : ∃ first later, signed i = first :: later ∧ (first.isDigit ∨ first = '-') := by
  cases digits : Nat.toDigits 10 i.natAbs with
  | nil => exact absurd digits Nat.toDigits_ne_nil
  | cons first later =>
    rw [signed, digits]
    cases decide (i < 0) with
    | true => exact ⟨'-', first :: later, rfl, .inr rfl⟩
    | false => exact ⟨first, later, rfl, .inl (toDigits_digits (n := i.natAbs) first (by simp [digits]))⟩

/-- The characters of a numeral. -/
theorem mem_text {n : Numeral} {c : Char} (mem : c ∈ n.text) : c.isDigit ∨ c = '-' ∨ c = '.' ∨ c = 'e' := by
  obtain ⟨negative, whole, fraction, exponent, nonempty, digits, further⟩ := n
  simp only [text, List.mem_append] at mem
  rcases mem with mem | mem | mem | mem
  · exact .inr (.inl (mem_sign mem))
  · exact .inl (digits c mem)
  · cases fraction with
    | none => cases mem
    | some fraction =>
      rcases List.mem_cons.mp mem with point | mem
      · exact .inr (.inr (.inl point))
      · exact .inl (further c mem)
  · cases exponent with
    | none => cases mem
    | some e =>
      rcases List.mem_cons.mp mem with mark | mem
      · exact .inr (.inr (.inr mark))
      · rcases mem_signed mem with digit | minus
        · exact .inl digit
        · exact .inr (.inl minus)

theorem text_cons (n : Numeral) : ∃ first later, n.text = first :: later ∧ (first.isDigit ∨ first = '-') := by
  obtain ⟨negative, whole, fraction, exponent, nonempty, digits, further⟩ := n
  cases negative with
  | true => exact ⟨'-', _, rfl, .inr rfl⟩
  | false =>
    cases whole with
    | nil => exact absurd rfl nonempty
    | cons first later => exact ⟨first, _, rfl, .inl (digits first (List.mem_cons_self ..))⟩

/-- A marked numeral shows it. -/
theorem Marked.mem_text {n : Numeral} (marked : n.Marked) : '.' ∈ n.text ∨ 'e' ∈ n.text := by
  rcases marked with marked | marked
  · obtain ⟨fraction, here⟩ := Option.isSome_iff_exists.mp marked
    exact .inl (by simp [text, pointText, here])
  · obtain ⟨e, here⟩ := Option.isSome_iff_exists.mp marked
    exact .inr (by simp [text, exponentText, here])

/-- Whether characters behind a sign are a marked numeral that goes where this decimal goes. -/
def Spells (chars : List Char) (negative : Bool) (d : Decimal) : Prop :=
  ∃ n : Numeral, n.text = sign negative ++ chars ∧ n.negative = negative ∧ n.Marked ∧
    ∀ f : FloatFormat, f.ofDecimal n.decimal = f.ofDecimal d

/-! ### The places of the point -/

section Places

variable {digits : List Char} (all : ∀ c ∈ digits, c.isDigit) (nonempty : digits ≠ []) (negative : Bool)
include all

/-- The point stands in front of the digits, perhaps with zeros between. -/
theorem spells_leading (k : Nat) :
    Spells ('0' :: '.' :: (List.replicate k '0' ++ digits)) negative
      ⟨digitsValue digits, -(k + digits.length : Nat)⟩ := by
  refine ⟨⟨negative, ['0'], some (List.replicate k '0' ++ digits), none, nofun, by simp,
    List.forall_mem_append.mpr ⟨zeros_digits k, all⟩⟩, ?_, rfl, .inl rfl, fun f => ?_⟩
  · simp [text, pointText, exponentText]
  · have value : digitsValue ('0' :: (List.replicate k '0' ++ digits)) = digitsValue digits := by
      rw [← List.cons_append, ← List.replicate_succ, digitsValue_append, digitsValue_zeros, Nat.mul_zero,
        Nat.zero_add]
    simp [decimal, value]

include nonempty

/-- The point stands behind the digits, perhaps with zeros between. -/
theorem spells_trailing (k : Nat) :
    Spells (digits ++ (List.replicate k '0' ++ ['.', '0'])) negative ⟨digitsValue digits, k⟩ := by
  refine ⟨⟨negative, digits ++ List.replicate k '0', some ['0'], none, by simp [nonempty],
    List.forall_mem_append.mpr ⟨all, zeros_digits k⟩, by simp⟩, ?_, rfl, .inl rfl, fun f => ?_⟩
  · simp [text, pointText, exponentText]
  · have value : digitsValue (digits ++ List.replicate k '0' ++ ['0']) = digitsValue digits * 10 ^ (k + 1) := by
      rw [List.append_assoc, ← List.replicate_succ', digitsValue_append, digitsValue_zeros, List.length_replicate,
        Nat.add_zero, Nat.mul_comm]
    have shifted := f.ofDecimal_shifts (digitsValue digits) (k + 1) (-1)
    show f.ofDecimal ⟨digitsValue (digits ++ List.replicate k '0' ++ ['0']), (0 : Int) - 1⟩ = _
    rw [value, f.ofDecimal_shifts]
    congr 2
    omega

/-- The point stands among the digits. -/
theorem spells_among (places : Nat) (positive : 0 < places) (within : places ≤ digits.length) :
    Spells (digits.take places ++ '.' :: digits.drop places) negative
      ⟨digitsValue digits, places - digits.length⟩ := by
  refine ⟨⟨negative, digits.take places, some (digits.drop places), none, ?_,
    fun c mem => all c (List.mem_of_mem_take mem), fun c mem => all c (List.mem_of_mem_drop mem)⟩, ?_, rfl,
    .inl rfl, fun f => ?_⟩
  · simp [nonempty, Nat.ne_of_gt positive]
  · simp [text, pointText, exponentText]
  · show f.ofDecimal ⟨digitsValue (digits.take places ++ digits.drop places),
      (0 : Int) - (digits.drop places).length⟩ = _
    rw [List.take_append_drop, List.length_drop]
    congr 2
    omega

/-- One digit stands in front of the point, and an exponent behind. -/
theorem spells_exponent (e : Int) :
    Spells
      (digits.take 1 ++ ((if digits.length ≤ 1 then [] else '.' :: digits.drop 1) ++ 'e' :: signed e)) negative
      ⟨digitsValue digits, e + 1 - digits.length⟩ := by
  have length : 0 < digits.length := List.length_pos_iff.mpr nonempty
  by_cases single : digits.length ≤ 1
  · rw [if_pos single, List.take_of_length_le single]
    refine ⟨⟨negative, digits, none, some e, nonempty, all, nofun⟩, ?_, rfl, .inr rfl, fun f => ?_⟩
    · simp [text, pointText, exponentText]
    · show f.ofDecimal ⟨digitsValue (digits ++ []), e - 0⟩ = _
      rw [List.append_nil]
      congr 2
      omega
  · rw [if_neg single]
    refine ⟨⟨negative, digits.take 1, some (digits.drop 1), some e, by simp [nonempty],
      fun c mem => all c (List.mem_of_mem_take mem), fun c mem => all c (List.mem_of_mem_drop mem)⟩, ?_, rfl,
      .inl rfl, fun f => ?_⟩
    · simp [text, pointText, exponentText]
    · show f.ofDecimal ⟨digitsValue (digits.take 1 ++ digits.drop 1), e - (digits.drop 1).length⟩ = _
      rw [List.take_append_drop, List.length_drop]
      congr 2
      omega

end Places

end Numeral

/-! ## The layout of literals -/

namespace Layout

theorem spells_decimalText (negative : Bool) (d : Decimal) :
    Numeral.Spells (literal.decimalText d).toList negative d := by
  obtain ⟨whole, power⟩ := d
  have all := toDigits_digits (n := whole)
  have nonempty : Nat.toDigits 10 whole ≠ [] := Nat.toDigits_ne_nil
  have value := digitsValue_toDigits whole
  unfold decimalText
  dsimp only
  generalize Nat.toDigits 10 whole = digits at *
  subst value
  have length := List.length_pos_iff.mpr nonempty
  generalize exponent : (digits.length : Int) - 1 + power = e
  split
  · unfold positionalText
    dsimp only
    split
    · have spelled := Numeral.spells_leading all negative (-e - 1).toNat
      have place : -(((-e - 1).toNat + digits.length : Nat) : Int) = power := by omega
      rw [place] at spelled
      simpa [zeros] using spelled
    split
    · have spelled := Numeral.spells_trailing all nonempty negative ((e + 1).toNat - digits.length)
      have place : (((e + 1).toNat - digits.length : Nat) : Int) = power := by omega
      rw [place] at spelled
      simpa [zeros, literal] using spelled
    · rename_i among
      have spelled := Numeral.spells_among all nonempty negative (e + 1).toNat (by omega) (Nat.le_of_not_le among)
      have place : ((e + 1).toNat : Int) - digits.length = power := by omega
      rw [place] at spelled
      simpa using spelled
  · have spelled := Numeral.spells_exponent all nonempty negative e
    have place : e + 1 - digits.length = power := by omega
    rw [place] at spelled
    have others : (if digits.length ≤ 1 then "" else "." ++ String.ofList (digits.drop 1)).toList =
        if digits.length ≤ 1 then [] else '.' :: digits.drop 1 := by
      split <;> simp
    have minus : (if e < 0 then "-" else "").toList = sign (e < 0) := by
      by_cases negative : e < 0 <;> simp [negative, sign]
    have places : (toString e.natAbs).toList = Nat.toDigits 10 e.natAbs := Nat.toList_repr
    have noPlus : literal.plusMark = "" := rfl
    simp only [exponentText, noPlus, String.toList_append, String.toList_ofList, others, minus, places,
      List.append_assoc]
    exact spelled

/-- Every finite number is written as a marked numeral that stands for it, bit for bit. -/
theorem exists_write {f : FloatFormat} {x : Binary f} (finite : x.isFinite) :
    ∃ n : Numeral, n.text = (literal.write x).toList ∧ n.Marked ∧ Binary.ofDecimal f n.negative n.decimal = x := by
  have below : x.magnitude < f.infinity := by simpa [Binary.isFinite] using finite
  have number : x.isNaN = false := by simp [Binary.isNaN, Nat.le_of_lt below]
  have bounded : x.isInfinite = false := by simp [Binary.isInfinite, Nat.ne_of_lt below]
  obtain ⟨n, spelled, signs, marked, same⟩ := spells_decimalText x.negative (Shortest.decimal literal.tie x)
  refine ⟨n, ?_, marked, ?_⟩
  · rw [spelled, write, number, bounded]
    cases x.negative <;> simp [sign]
  · rw [Binary.ofDecimal]
    congr
    rw [same, Shortest.ofDecimal_decimal _ finite]

-- the first exponents below and above those that are written positionally, and the sign of zero
example : literal.write (Binary.ofWord .double 0x3EE4F8B588E368F1) = "1e-5" ∧
    literal.write (Binary.ofWord .double 0x4341C37937E08000) = "1e16" ∧
    literal.write (Binary.ofWord .double 0x8000000000000000) = "-0.0" := by decide +kernel

end Layout
end DemoTape
