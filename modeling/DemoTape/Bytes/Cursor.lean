/-
# Reading bytes in order

A cursor stands at an offset of a byte list, possibly past its end, and knows what is left. A `Decoder` moves
it. A read of some bytes succeeds exactly when the list reaches that far, and then moves the cursor behind
them; a read that fails leaves the cursor where it was. So after a failure of a longer decoder the cursor
stands where the failing read began.
-/
import DemoTape.Fault

namespace DemoTape
set_option autoImplicit false

structure Cursor where
  size : Nat
  offset : Nat
  rest : Bytes
  length_rest : rest.length = size - offset
  deriving DecidableEq

namespace Cursor

/-- The cursor at an offset of these bytes. -/
def ofBytes (bytes : Bytes) (offset : Nat) : Cursor where
  size := bytes.length
  offset
  rest := bytes.drop offset
  length_rest := List.length_drop

def remaining (c : Cursor) : Nat := c.size - c.offset

def atEnd (c : Cursor) : Bool := c.size ≤ c.offset

def advance (c : Cursor) (n : Nat) : Cursor where
  size := c.size
  offset := c.offset + n
  rest := c.rest.drop n
  length_rest := by rw [List.length_drop, c.length_rest, Nat.sub_sub]

theorem atEnd_iff (c : Cursor) : c.atEnd ↔ c.remaining = 0 := by
  simp [atEnd, remaining, Nat.sub_eq_zero_iff_le]

end Cursor

/-- A computation that moves a cursor; when it fails, the cursor stays where it had got to. -/
abbrev Decoder := EStateM Fault Cursor

namespace Decoder

/-! ## Single reads -/

def bytes (n : Nat) : Decoder Bytes := fun c =>
  if c.offset + n ≤ c.size then .ok (c.rest.take n) (c.advance n)
  else .error (.endOfData c.offset n c.remaining) c

def skip (n : Nat) : Decoder Unit := fun c =>
  if c.offset + n ≤ c.size then .ok () (c.advance n)
  else .error (.endOfData c.offset n c.remaining) c

/-- A number of so many bytes, the lowest first. -/
def word (width : Nat) : Decoder Nat := Bytes.toNat <$> bytes width

def u8 : Decoder UInt8 := UInt8.ofNat <$> word 1
def u16 : Decoder UInt16 := UInt16.ofNat <$> word 2
def u32 : Decoder UInt32 := UInt32.ofNat <$> word 4
def i32 : Decoder Int32 := UInt32.toInt32 <$> u32
def f32 : Decoder Binary32 := Binary.ofWord .single <$> word 4

/-- Text in a field of fixed size: it ends at the first zero byte, if there is one. -/
def fixedText (size : Nat) : Decoder String :=
  (fun field => Utf8.decodeLossy (field.takeWhile (· ≠ 0))) <$> bytes size

/-! ## Composite reads -/

def offset : Decoder Nat := Cursor.offset <$> get
def remaining : Decoder Nat := Cursor.remaining <$> get
def atEnd : Decoder Bool := Cursor.atEnd <$> get

def fail {α : Type} (fault : Fault) : Decoder α := fun c => .error fault c

def corrupt {α : Type} (offset : Nat) (cause : Corruption) : Decoder α := fail (.corrupt offset cause)

/-- A decoder that puts the cursor back when it fails. -/
def atomically {α : Type} (decoder : Decoder α) : Decoder α := fun c =>
  match decoder c with
  | .ok a after => .ok a after
  | .error fault _ => .error fault c

/-- Text behind its length in bytes. -/
def text : Decoder String := atomically do
  let start ← offset
  let size ← u16
  let body ← bytes size.toNat
  match Utf8.decode body with
  | .ok s => pure s
  | .error flaw => corrupt start (.invalidText flaw)

/-- The results of running a decoder so many times. -/
def replicate {α : Type} (decoder : Decoder α) : Nat → Decoder (List α)
  | 0 => pure []
  | n + 1 => do
    let a ← decoder
    let rest ← replicate decoder n
    pure (a :: rest)

/-- What a decoder reads at an offset. -/
def readAt {α : Type} (decoder : Decoder α) (data : Bytes) (offset : Nat) : Except Fault α :=
  match decoder (Cursor.ofBytes data offset) with
  | .ok a _ => .ok a
  | .error fault _ => .error fault

/-! ## When a read succeeds -/

theorem bytes_ok {c : Cursor} {n : Nat} (fits : c.offset + n ≤ c.size) :
    bytes n c = .ok (c.rest.take n) (c.advance n) := if_pos fits

theorem bytes_error {c : Cursor} {n : Nat} (short : ¬ c.offset + n ≤ c.size) :
    bytes n c = .error (.endOfData c.offset n c.remaining) c := if_neg short

end Decoder
end DemoTape
