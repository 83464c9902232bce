/-
# A text has one spelling

Bytes that are taken for a text are the bytes of that text (`encode_of_decode`). A list of segments that are
all characters is followed from its first byte on: a byte that opens a character says which bytes may come
next (`further_of_open`, `last_of_open`), and the last of them closes a character whose bytes are those that
were met (`char_of_segments`).
-/
import DemoTape.Text.Utf8

namespace DemoTape.Utf8
set_option autoImplicit false

/-! ## The bytes of a character -/

theorem toNat_val_ofNat {v : Nat} (valid : v.isValidChar) : (Char.ofNat v).val.toNat = v := by
  rw [Char.ofNat, dif_pos valid]
  rfl

theorem ofNat_eq_byte {n : Nat} {b : UInt8} (same : n = b.toNat) : UInt8.ofNat n = b := by
  rw [same, UInt8.ofNat_toNat]

/-- Whether a byte goes on with a character, whichever it is. -/
def Tail (b : UInt8) : Prop := 0x80 ≤ b.toNat ∧ b.toNat ≤ 0xBF

theorem encodeChar_one {a : UInt8} (small : a.toNat < 0x80) :
    String.utf8EncodeChar (Char.ofNat a.toNat) = [a] := by
  have scalar := toNat_val_ofNat (v := a.toNat) (.inl (by omega))
  unfold String.utf8EncodeChar
  dsimp only
  rw [scalar, if_pos (by omega), UInt8.ofNat_toNat]

theorem encodeChar_two {a b : UInt8} (low : 0xC2 ≤ a.toNat) (high : a.toNat < 0xE0) (second : Tail b) :
    String.utf8EncodeChar (Char.ofNat ((a.toNat - 0xC0) * 64 + (b.toNat - 0x80))) = [a, b] := by
  obtain ⟨least, most⟩ := second
  have scalar := toNat_val_ofNat (v := (a.toNat - 0xC0) * 64 + (b.toNat - 0x80)) (.inl (by omega))
  unfold String.utf8EncodeChar
  dsimp only
  rw [scalar, if_neg (by omega), if_pos (by omega), ofNat_eq_byte (b := a) (by omega),
    ofNat_eq_byte (b := b) (by omega)]

/-- The second byte is bounded so that three bytes are needed and no surrogate comes out. -/
theorem encodeChar_three {a b c : UInt8} (low : 0xE0 ≤ a.toNat) (high : a.toNat < 0xF0) (second : Tail b)
    (least : a.toNat = 0xE0 → 0xA0 ≤ b.toNat) (most : a.toNat = 0xED → b.toNat ≤ 0x9F) (third : Tail c) :
    String.utf8EncodeChar
      (Char.ofNat (((a.toNat - 0xE0) * 64 + (b.toNat - 0x80)) * 64 + (c.toNat - 0x80))) = [a, b, c] := by
  obtain ⟨_, _⟩ := second
  obtain ⟨_, _⟩ := third
  have scalar := toNat_val_ofNat
    (v := ((a.toNat - 0xE0) * 64 + (b.toNat - 0x80)) * 64 + (c.toNat - 0x80)) (by
      by_cases below : a.toNat ≤ 0xED
      · exact .inl (by omega)
      · exact .inr (by omega))
  unfold String.utf8EncodeChar
  dsimp only
  rw [scalar, if_neg (by omega), if_neg (by omega), if_pos (by omega), ofNat_eq_byte (b := a) (by omega),
    ofNat_eq_byte (b := b) (by omega), ofNat_eq_byte (b := c) (by omega)]

/-- The second byte is bounded so that four bytes are needed and are enough. -/
theorem encodeChar_four {a b c d : UInt8} (low : 0xF0 ≤ a.toNat) (high : a.toNat < 0xF5) (second : Tail b)
    (least : a.toNat = 0xF0 → 0x90 ≤ b.toNat) (most : a.toNat = 0xF4 → b.toNat ≤ 0x8F) (third : Tail c)
    (fourth : Tail d) :
    String.utf8EncodeChar (Char.ofNat ((((a.toNat - 0xF0) * 64 + (b.toNat - 0x80)) * 64 + (c.toNat - 0x80)) * 64 +
      (d.toNat - 0x80))) = [a, b, c, d] := by
  obtain ⟨_, _⟩ := second
  obtain ⟨_, _⟩ := third
  obtain ⟨_, _⟩ := fourth
  have scalar := toNat_val_ofNat
    (v := (((a.toNat - 0xF0) * 64 + (b.toNat - 0x80)) * 64 + (c.toNat - 0x80)) * 64 + (d.toNat - 0x80))
    (.inr (by omega))
  unfold String.utf8EncodeChar
  dsimp only
  rw [scalar, if_neg (by omega), if_neg (by omega), if_neg (by omega), ofNat_eq_byte (b := a) (by omega),
    ofNat_eq_byte (b := b) (by omega), ofNat_eq_byte (b := c) (by omega), ofNat_eq_byte (b := d) (by omega)]

/-! ## Open characters -/

theorem not_chars_invalid {n : Nat} {segments : List Segment} {chars : List Char}
    (read : .invalid n :: segments = chars.map .char) : False := by
  cases chars <;> simp at read

/-- An open character goes on with a byte of its range. -/
theorem cons_of_open {o : Opening} {rest : List UInt8} {chars : List Char}
    (read : segmentsFrom (some o) rest = chars.map .char) :
    ∃ b later, rest = b :: later ∧ (o.low ≤ b.toNat ∧ b.toNat ≤ o.high) ∧
      (o.push b).1 ++ segmentsFrom (o.push b).2 later = chars.map .char := by
  cases rest with
  | nil => cases chars <;> simp [segmentsFrom] at read
  | cons b later =>
    rw [segmentsFrom_cons, step] at read
    split at read
    · rename_i inside
      exact ⟨b, later, rfl, inside, read⟩
    · exact (not_chars_invalid read).elim

theorem further_of_open {scalar taken missing low high : Nat} {rest : List UInt8} {chars : List Char}
    (read : segmentsFrom (some ⟨scalar, taken, missing + 1, low, high⟩) rest = chars.map .char) :
    ∃ b later, rest = b :: later ∧ (low ≤ b.toNat ∧ b.toNat ≤ high) ∧
      segmentsFrom (some ⟨scalar * 64 + (b.toNat - 0x80), taken + 1, missing, 0x80, 0xBF⟩) later =
        chars.map .char := by
  obtain ⟨b, later, rfl, inside, read⟩ := cons_of_open read
  exact ⟨b, later, rfl, inside, read⟩

theorem last_of_open {scalar taken low high : Nat} {rest : List UInt8} {chars : List Char}
    (read : segmentsFrom (some ⟨scalar, taken, 0, low, high⟩) rest = chars.map .char) :
    ∃ b later more, rest = b :: later ∧ (low ≤ b.toNat ∧ b.toNat ≤ high) ∧
      chars = Char.ofNat (scalar * 64 + (b.toNat - 0x80)) :: more ∧
      segmentsFrom none later = more.map .char := by
  obtain ⟨b, later, rfl, inside, read⟩ := cons_of_open read
  cases chars with
  | nil => cases read
  | cons c more =>
    simp only [Opening.push, List.cons_append, List.nil_append, List.map_cons, List.cons.injEq,
      Segment.char.injEq] at read
    obtain ⟨rfl, onward⟩ := read
    exact ⟨b, later, more, rfl, inside, rfl, onward⟩

/-! ## One character after the other -/

/-- The first bytes of a text are those of its first character. -/
theorem char_of_segments {b : UInt8} {rest : List UInt8} {chars : List Char}
    (read : segmentsFrom none (b :: rest) = chars.map .char) :
    ∃ c more later, chars = c :: more ∧ b :: rest = String.utf8EncodeChar c ++ later ∧
      segmentsFrom none later = more.map .char := by
  have byte := b.toNat_lt
  rw [segmentsFrom_cons, step, start] at read
  split at read
  case isTrue one =>
    cases chars with
    | nil => cases read
    | cons c more =>
      simp only [List.cons_append, List.nil_append, List.map_cons, List.cons.injEq, Segment.char.injEq] at read
      obtain ⟨rfl, onward⟩ := read
      exact ⟨_, more, rest, rfl, by rw [encodeChar_one one]; rfl, onward⟩
  split at read
  case isTrue => exact (not_chars_invalid read).elim
  split at read
  case isTrue two =>
    obtain ⟨c, later, more, rfl, second, rfl, onward⟩ := last_of_open read
    refine ⟨_, more, later, rfl, ?_, onward⟩
    rw [encodeChar_two (by omega) two second]
    rfl
  split at read
  case isTrue three =>
    obtain ⟨c, later, rfl, second, read⟩ := further_of_open read
    obtain ⟨d, later, more, rfl, third, rfl, onward⟩ := last_of_open read
    refine ⟨_, more, later, rfl, ?_, onward⟩
    rw [encodeChar_three (by omega) three ?inside ?least ?most third]
    · rfl
    case inside => constructor <;> (split at second <;> split at second <;> omega)
    case least =>
      intro least
      rw [if_pos least] at second
      exact second.1
    case most =>
      intro most
      rw [if_pos most] at second
      exact second.2
  split at read
  case isTrue four =>
    obtain ⟨c, later, rfl, second, read⟩ := further_of_open read
    obtain ⟨d, later, rfl, third, read⟩ := further_of_open read
    obtain ⟨e, later, more, rfl, fourth, rfl, onward⟩ := last_of_open read
    refine ⟨_, more, later, rfl, ?_, onward⟩
    rw [encodeChar_four (by omega) four ?inside ?least ?most third fourth]
    · rfl
    case inside => constructor <;> (split at second <;> split at second <;> omega)
    case least =>
      intro least
      rw [if_pos least] at second
      exact second.1
    case most =>
      intro most
      rw [if_pos most] at second
      exact second.2
  case isFalse => exact (not_chars_invalid read).elim

theorem bytes_of_segments {bytes : List UInt8} {chars : List Char}
    (read : segmentsFrom none bytes = chars.map .char) : chars.flatMap String.utf8EncodeChar = bytes := by
  induction chars generalizing bytes with
  | nil =>
    cases bytes with
    | nil => rfl
    | cons b rest =>
      obtain ⟨_, _, _, absurd, -⟩ := char_of_segments read
      cases absurd
  | cons c more ih =>
    cases bytes with
    | nil => cases read
    | cons b rest =>
      obtain ⟨_, _, later, same, here, read⟩ := char_of_segments read
      cases same
      rw [List.flatMap_cons, ih read, here]

theorem chars_of_flaw? {index : Nat} {segments : List Segment} (sound : flaw? index segments = none) :
    ∃ chars : List Char, segments = chars.map .char := by
  induction segments generalizing index with
  | nil => exact ⟨[], rfl⟩
  | cons segment rest ih =>
    cases segment with
    | char c =>
      obtain ⟨chars, rfl⟩ := ih sound
      exact ⟨c :: chars, rfl⟩
    | invalid length => cases sound
    | cut length => cases sound

/-- Bytes that are taken for a text are those of the text. -/
theorem encode_of_decode {bytes : List UInt8} {text : String} (read : decode bytes = .ok text) :
    encode text = bytes := by
  unfold decode at read
  split at read
  · rename_i sound
    cases read
    obtain ⟨chars, found⟩ := chars_of_flaw? sound
    have shown : (chars.map Segment.char).map Segment.shown = chars := by
      rw [List.map_map]
      exact List.map_id _
    rw [decodeLossy, found, shown, encode, String.toList_ofList]
    exact bytes_of_segments found
  · cases read

end DemoTape.Utf8
