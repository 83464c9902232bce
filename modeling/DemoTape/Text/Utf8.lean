/-
# UTF-8 text in a byte list

A byte list is cut into segments: characters, maximal parts that no character can start with, and at most
one character that the end of the list cuts off. `segments` does the cutting with a machine of one state,
the character under construction. The two readers follow from it: `decode` accepts a list whose segments
are all characters and otherwise names the first one that is not, `decodeLossy` puts U+FFFD in its place.

The second byte of a character has a narrower range after `E0`, `ED`, `F0` and `F4`; this excludes the
overlong forms, the surrogates and everything above U+10FFFF, so a character has one spelling only.
-/

namespace DemoTape.Utf8
set_option autoImplicit false

/-! ## Segments -/

inductive Segment where
  | char (c : Char)
  /-- So many bytes that start no character. -/
  | invalid (length : Nat)
  /-- So many bytes of a character that the end of the list cuts off. -/
  | cut (length : Nat)
  deriving DecidableEq, Repr

/-- A character whose next byte lies in the range from `low` to `high`; after that one, `missing` more bytes
are to come. -/
structure Opening where
  scalar : Nat
  taken : Nat
  missing : Nat
  low : Nat
  high : Nat
  deriving DecidableEq, Repr

/-- What one byte yields: the segments it completes, and the character it leaves open. -/
abbrev Yield := List Segment × Option Opening

/-- A byte where no character is open. -/
def start (byte : UInt8) : Yield :=
  let b := byte.toNat
  if b < 0x80 then ([.char (Char.ofNat b)], none)
  else if b < 0xC2 then ([.invalid 1], none)
  else if b < 0xE0 then ([], some ⟨b - 0xC0, 1, 0, 0x80, 0xBF⟩)
  else if b < 0xF0 then
    ([], some ⟨b - 0xE0, 1, 1, if b = 0xE0 then 0xA0 else 0x80, if b = 0xED then 0x9F else 0xBF⟩)
  else if b < 0xF5 then
    ([], some ⟨b - 0xF0, 1, 2, if b = 0xF0 then 0x90 else 0x80, if b = 0xF4 then 0x8F else 0xBF⟩)
  else ([.invalid 1], none)

/-- A byte of the range of the open character. -/
def Opening.push (o : Opening) (byte : UInt8) : Yield :=
  let scalar := o.scalar * 64 + (byte.toNat - 0x80)
  match o.missing with
  | 0 => ([.char (Char.ofNat scalar)], none)
  | more + 1 => ([], some ⟨scalar, o.taken + 1, more, 0x80, 0xBF⟩)

/-- A byte outside the range ends the open character as an invalid part and starts afresh. -/
def step (state : Option Opening) (byte : UInt8) : Yield :=
  match state with
  | none => start byte
  | some o =>
    if o.low ≤ byte.toNat ∧ byte.toNat ≤ o.high then o.push byte
    else (.invalid o.taken :: (start byte).1, (start byte).2)

def segmentsFrom : Option Opening → List UInt8 → List Segment
  | none, [] => []
  | some o, [] => [.cut o.taken]
  | state, byte :: rest => (step state byte).1 ++ segmentsFrom (step state byte).2 rest

def segments (bytes : List UInt8) : List Segment := segmentsFrom none bytes

/-! ## Readers -/

/-- Why a byte list is not UTF-8, with the length of its longest valid beginning. -/
inductive Flaw where
  | invalid (length index : Nat)
  | incomplete (index : Nat)
  deriving DecidableEq, Repr

def Flaw.message : Flaw → String
  | .invalid length index => s!"invalid utf-8 sequence of {length} bytes from index {index}"
  | .incomplete index => s!"incomplete utf-8 byte sequence from index {index}"

/-- The first segment that is no character; `index` bytes precede the list. -/
def flaw? (index : Nat) : List Segment → Option Flaw
  | [] => none
  | .char c :: rest => flaw? (index + c.utf8Size) rest
  | .invalid length :: _ => some (.invalid length index)
  | .cut _ :: _ => some (.incomplete index)

/-- The character shown for a segment: itself, or U+FFFD for what is none. -/
def Segment.shown : Segment → Char
  | .char c => c
  | .invalid _ => '\uFFFD'
  | .cut _ => '\uFFFD'

def decodeLossy (bytes : List UInt8) : String :=
  String.ofList ((segments bytes).map Segment.shown)

def decode (bytes : List UInt8) : Except Flaw String :=
  match flaw? 0 (segments bytes) with
  | none => .ok (decodeLossy bytes)
  | some flaw => .error flaw

/-- The bytes of a text. -/
def encode (text : String) : List UInt8 := text.toList.flatMap String.utf8EncodeChar

/-! ## Reading what was written -/

theorem segmentsFrom_cons (state : Option Opening) (byte : UInt8) (rest : List UInt8) :
    segmentsFrom state (byte :: rest) = (step state byte).1 ++ segmentsFrom (step state byte).2 rest := by
  cases state <;> rfl

/-- The bytes of a character make one segment, whatever follows. -/
theorem segmentsFrom_encodeChar (c : Char) (rest : List UInt8) :
    segmentsFrom none (String.utf8EncodeChar c ++ rest) = .char c :: segmentsFrom none rest := by
  have scalar : c.val.toNat < 0xD800 ∨ 0xDFFF < c.val.toNat ∧ c.val.toNat < 0x110000 := c.valid
  unfold String.utf8EncodeChar
  dsimp only
  generalize value : c.val.toNat = v at scalar
  have back {n : Nat} (same : n = v) : Char.ofNat n = c := by
    rw [same, ← value]
    exact Char.ofNat_toNat c
  have byte {n : Nat} (small : n < 256) : (UInt8.ofNat n).toNat = n := by
    rw [UInt8.toNat_ofNat']
    omega
  split
  · simp only [List.cons_append, List.nil_append, segmentsFrom_cons, step, start,
      byte (show v < 256 by omega)]
    rw [if_pos (by omega), back rfl]
    rfl
  split
  · simp only [List.cons_append, List.nil_append, segmentsFrom_cons, step, start, Opening.push,
      byte (show v / 64 % 32 + 192 < 256 by omega), byte (show v % 64 + 128 < 256 by omega)]
    rw [if_neg (by omega), if_neg (by omega), if_pos (by omega)]
    dsimp only
    rw [if_pos (by omega), back (by omega)]
    rfl
  split
  · simp only [List.cons_append, List.nil_append, segmentsFrom_cons, step, start, Opening.push,
      byte (show v / 4096 % 16 + 224 < 256 by omega), byte (show v / 64 % 64 + 128 < 256 by omega),
      byte (show v % 64 + 128 < 256 by omega)]
    rw [if_neg (by omega), if_neg (by omega), if_neg (by omega), if_pos (by omega)]
    dsimp only
    rw [if_pos (by split <;> split <;> omega)]
    dsimp only
    rw [if_pos (by omega), back (by omega)]
    rfl
  · simp only [List.cons_append, List.nil_append, segmentsFrom_cons, step, start, Opening.push,
      byte (show v / 262144 % 8 + 240 < 256 by omega), byte (show v / 4096 % 64 + 128 < 256 by omega),
      byte (show v / 64 % 64 + 128 < 256 by omega), byte (show v % 64 + 128 < 256 by omega)]
    rw [if_neg (by omega), if_neg (by omega), if_neg (by omega), if_neg (by omega), if_pos (by omega)]
    dsimp only
    rw [if_pos (by split <;> split <;> omega)]
    dsimp only
    rw [if_pos (by omega)]
    dsimp only
    rw [if_pos (by omega), back (by omega)]
    rfl

/-- The segments of a text are its characters. -/
theorem segments_encode (text : String) : segments (encode text) = text.toList.map .char := by
  unfold segments encode
  induction text.toList with
  | nil => rfl
  | cons c rest ih => rw [List.flatMap_cons, segmentsFrom_encodeChar, ih, List.map_cons]

/-- A flaw is told with the number of bytes that the characters before it take. -/
theorem flaw?_append (index : Nat) (chars : List Char) (rest : List Segment) :
    flaw? index (chars.map .char ++ rest) = flaw? (index + (encode (String.ofList chars)).length) rest := by
  induction chars generalizing index with
  | nil => rfl
  | cons c others ih =>
    rw [List.map_cons, List.cons_append, flaw?, ih]
    simp only [encode, String.toList_ofList, List.flatMap_cons, List.length_append, String.length_utf8EncodeChar,
      Nat.add_assoc]

-- a byte that no character begins with, a character that the end cuts off, and one that the next breaks off
example : decode [0x61, 0xFF] = .error (.invalid 1 1) ∧ decode [0x61, 0xE2, 0x82] = .error (.incomplete 1) ∧
    decode [0x61, 0xE2, 0x82, 0x61] = .error (.invalid 2 1) ∧ decodeLossy [0x61, 0xE2, 0x82, 0x61] = "a\uFFFDa" :=
  ⟨rfl, rfl, rfl, rfl⟩

theorem flaw?_chars (index : Nat) (chars : List Char) : flaw? index (chars.map .char) = none := by
  simpa [flaw?] using flaw?_append index chars []

theorem decodeLossy_encode (text : String) : decodeLossy (encode text) = text := by
  rw [decodeLossy, segments_encode, List.map_map]
  exact (congrArg String.ofList (List.map_id _)).trans String.ofList_toList

/-- What was written reads back. -/
theorem decode_encode (text : String) : decode (encode text) = .ok text := by
  rw [decode, segments_encode, flaw?_chars, decodeLossy_encode]

end DemoTape.Utf8
