/-
# Cursors in words

A cursor whose offset is a word of 64 bits, over a buffer whose size is one. A sum of words is checked where the end
of a read is looked for, and nowhere else, so the others have to fit: `add?` makes each of them visible, and a read
yields nothing at all if one does not. None ever happens, from whatever offset and for whatever number of bytes, and
what is read is what a cursor without bounds reads (`WordCursor.read_eq`, `WordCursor.run_eq`). `Read.run_exact` is all
that holds of reads, after any others.
-/
import DemoTape.Proofs.Decoding.Exact

namespace DemoTape
set_option autoImplicit false

-- powers are those of the core library, whatever else is loaded
attribute [local instance (high)] instPowNat

/-! ## Words -/

/-- A sum, where it is a word. -/
def add? (a b : UInt64) : Option UInt64 := if a.toNat + b.toNat < 2 ^ (64 : Nat) then some (a + b) else none

/-- A difference, or zero where it is below. -/
def subOrZero (a b : UInt64) : UInt64 := if b ≤ a then a - b else 0

theorem add?_of_lt {a b : UInt64} (fits : a.toNat + b.toNat < 2 ^ (64 : Nat)) : add? a b = some (a + b) := if_pos fits

theorem toNat_add_of_lt {a b : UInt64} (fits : a.toNat + b.toNat < 2 ^ (64 : Nat)) :
    (a + b).toNat = a.toNat + b.toNat := by
  rw [UInt64.toNat_add, Nat.mod_eq_of_lt fits]

theorem toNat_subOrZero (a b : UInt64) : (subOrZero a b).toNat = a.toNat - b.toNat := by
  unfold subOrZero
  split
  · rename_i le
    exact UInt64.toNat_sub_of_le _ _ le
  · rename_i above
    exact (Nat.sub_eq_zero_of_le (Nat.le_of_not_le above)).symm

structure WordCursor where
  data : Bytes
  addressable : data.length < 2 ^ (64 : Nat)
  offset : UInt64

namespace WordCursor
variable {α : Type}

/-! ## Reading -/

def size (w : WordCursor) : UInt64 := UInt64.ofNat w.data.length

def remaining (w : WordCursor) : UInt64 := subOrZero w.size w.offset

def atEnd (w : WordCursor) : Bool := w.remaining = 0

/-- What is read, or a fault, and the cursor afterwards. -/
abbrev Outcome (α : Type) := EStateM.Result Fault WordCursor α

/-- So many bytes at an offset. -/
def slice (w : WordCursor) (offset n : UInt64) : Except Fault Bytes :=
  let missing := Fault.endOfData offset.toNat n.toNat (subOrZero w.size offset).toNat
  match add? offset n with
  | some stop => if stop ≤ w.size then .ok (w.data.extract offset.toNat stop.toNat) else .error missing
  | none => .error missing

/-- A value made of so many bytes. -/
def fixed (n : UInt64) (value : Bytes → α) (w : WordCursor) : Option (Outcome α) :=
  match w.slice w.offset n with
  | .error fault => some (.error fault w)
  | .ok taken => do
    let offset ← add? w.offset n
    some (.ok (value taken) { w with offset })

def text (w : WordCursor) : Option (Outcome String) :=
  match w.slice w.offset 2 with
  | .error fault => some (.error fault w)
  | .ok taken => do
    let size := UInt64.ofNat taken.toNat
    let start ← add? w.offset 2
    match w.slice start size with
    | .error fault => some (.error fault w)
    | .ok body =>
      match Utf8.decode body with
      | .error flaw => some (.error (.corrupt w.offset.toNat (.invalidText flaw)) w)
      | .ok s => do
        let offset ← add? start size
        some (.ok s { w with offset })

def read : (r : Read) → WordCursor → Option (Outcome r.Result)
  | .u8 => fixed 1 (UInt8.ofNat ∘ Bytes.toNat)
  | .u16 => fixed 2 (UInt16.ofNat ∘ Bytes.toNat)
  | .u32 => fixed 4 (UInt32.ofNat ∘ Bytes.toNat)
  | .i32 => fixed 4 (UInt32.toInt32 ∘ UInt32.ofNat ∘ Bytes.toNat)
  | .f32 => fixed 4 (Binary.ofWord .single ∘ Bytes.toNat)
  | .bytes n => fixed n id
  | .skip n => fixed n fun _ => ()
  | .text => text

/-- Where a read has left the cursor. -/
def stand : Outcome α → WordCursor
  | .ok _ after => after
  | .error _ after => after

def run : List Read → WordCursor → Option WordCursor
  | [], w => some w
  | r :: reads, w => do
    let outcome ← w.read r
    run reads (stand outcome)

/-! ## Against a cursor without bounds -/

/-- The cursor at the same offset. -/
def cursor (w : WordCursor) : Cursor := .ofBytes w.data w.offset.toNat

/-- The same result with the cursor at the same offset. -/
def unbounded : Outcome α → EStateM.Result Fault Cursor α
  | .ok a after => .ok a after.cursor
  | .error fault after => .error fault after.cursor

variable (w : WordCursor)

theorem toNat_size : w.size.toNat = w.data.length := UInt64.toNat_ofNat_of_lt' w.addressable

theorem toNat_remaining : w.remaining.toNat = w.cursor.remaining := by
  rw [remaining, toNat_subOrZero, toNat_size]
  rfl

theorem atEnd_eq : w.atEnd = w.cursor.atEnd := by
  rw [Bool.eq_iff_iff, Cursor.atEnd_iff, ← toNat_remaining, atEnd, decide_eq_true_iff, ← UInt64.toNat_inj]
  rfl

/-- The sum that is looked for is a word wherever the bytes are there. -/
theorem slice_eq (offset n : UInt64) : w.slice offset n =
    if offset.toNat + n.toNat ≤ w.data.length then .ok (w.data.slice offset.toNat n.toNat)
    else .error (.endOfData offset.toNat n.toNat (w.data.length - offset.toNat)) := by
  have addressable := w.addressable
  unfold slice
  rw [toNat_subOrZero, toNat_size]
  by_cases word : offset.toNat + n.toNat < 2 ^ (64 : Nat)
  · have sum := toNat_add_of_lt word
    have within : offset + n ≤ w.size ↔ offset.toNat + n.toNat ≤ w.data.length := by
      rw [UInt64.le_iff_toNat_le, sum, toNat_size]
    have taken : w.data.extract offset.toNat (offset + n).toNat = w.data.slice offset.toNat n.toNat := by
      rw [sum, List.extract_eq_take_drop, Nat.add_sub_cancel_left, Bytes.slice]
    simp only [add?_of_lt word, within, taken]
  · -- what ends beyond all words ends beyond the buffer
    have beyond : ¬ offset.toNat + n.toNat ≤ w.data.length := by omega
    rw [add?, if_neg word, if_neg beyond]

theorem fixed_eq {decoder : Decoder α} {n : UInt64} {value : Bytes → α} (same : decoder.Fixed n.toNat value) :
    ∃ result, w.fixed n value = some result ∧ unbounded result = decoder w.cursor := by
  have addressable := w.addressable
  unfold fixed
  rw [slice_eq, cursor, same]
  by_cases fits : w.offset.toNat + n.toNat ≤ w.data.length
  · have word : w.offset.toNat + n.toNat < 2 ^ (64 : Nat) := by omega
    rw [if_pos fits, if_pos fits]
    refine ⟨.ok (value (w.data.slice w.offset.toNat n.toNat)) { w with offset := w.offset + n }, ?_, ?_⟩
    · simp only [add?_of_lt word]
      rfl
    · rw [unbounded, cursor, toNat_add_of_lt word]
  · rw [if_neg fits, if_neg fits]
    exact ⟨_, rfl, rfl⟩

theorem text_eq : ∃ result, w.text = some result ∧ unbounded result = Decoder.text w.cursor := by
  have addressable := w.addressable
  have two : (2 : UInt64).toNat = 2 := rfl
  unfold text
  rw [slice_eq, cursor, Decoder.text_ofBytes, two]
  by_cases there : w.offset.toNat + 2 ≤ w.data.length
  · rw [if_pos there, if_pos there]
    dsimp only
    have word : w.offset.toNat + (2 : UInt64).toNat < 2 ^ (64 : Nat) := Nat.lt_of_le_of_lt there addressable
    have start : (w.offset + 2).toNat = w.offset.toNat + 2 := toNat_add_of_lt word
    generalize length : (w.data.slice w.offset.toNat 2).toNat = n
    have size : (UInt64.ofNat n).toNat = n := by
      have small := Bytes.toNat_slice_lt there
      rw [length] at small
      exact UInt64.toNat_ofNat_of_lt' (Nat.lt_trans small (by decide))
    rw [add?_of_lt word, Option.bind_eq_bind, Option.bind_some, slice_eq, start, size]
    by_cases within : w.offset.toNat + 2 + n ≤ w.data.length
    · rw [if_pos within, if_pos within]
      dsimp only
      cases Utf8.decode (w.data.slice (w.offset.toNat + 2) n) with
      | error flaw => exact ⟨_, rfl, rfl⟩
      | ok s =>
        -- the end was found within the buffer, whose size is a word
        have sum : (w.offset + 2).toNat + (UInt64.ofNat n).toNat < 2 ^ (64 : Nat) := by omega
        refine ⟨.ok s { w with offset := w.offset + 2 + UInt64.ofNat n }, ?_, ?_⟩
        · simp only [add?_of_lt sum]
          rfl
        · rw [unbounded, cursor, toNat_add_of_lt sum, start, size]
    · rw [if_neg within, if_neg within]
      exact ⟨_, rfl, rfl⟩
  · rw [if_neg there, if_neg there]
    exact ⟨_, rfl, rfl⟩

theorem read_eq (r : Read) : ∃ result, w.read r = some result ∧ unbounded result = r.decoder w.cursor := by
  cases r with
  | u8 => exact w.fixed_eq Decoder.fixed_u8
  | u16 => exact w.fixed_eq Decoder.fixed_u16
  | u32 => exact w.fixed_eq Decoder.fixed_u32
  | i32 => exact w.fixed_eq Decoder.fixed_i32
  | f32 => exact w.fixed_eq Decoder.fixed_f32
  | bytes n => exact w.fixed_eq (Decoder.fixed_bytes n.toNat)
  | skip n => exact w.fixed_eq (Decoder.fixed_skip n.toNat)
  | text => exact w.text_eq

variable {w} in
theorem cursor_stand {result : Outcome α} {decoder : Decoder α} (same : unbounded result = decoder w.cursor) :
    (stand result).cursor = decoder.stand w.cursor := by
  rw [Decoder.stand, ← same]
  cases result <;> rfl

theorem run_eq (reads : List Read) : ∃ later, w.run reads = some later ∧ later.cursor = Read.run reads w.cursor := by
  induction reads generalizing w with
  | nil => exact ⟨w, rfl, rfl⟩
  | cons r reads ih =>
    obtain ⟨result, read, same⟩ := w.read_eq r
    obtain ⟨later, ran, there⟩ := ih (stand result)
    refine ⟨later, ?_, ?_⟩
    · rw [run, read]
      exact ran
    · rw [there, cursor_stand same]
      rfl

end WordCursor

/-! ## After any reads -/

/-- **After any reads, failed ones among them, a read succeeds exactly if all that it needs is there, and goes over
exactly the bytes of what it reads; if it fails it does not move.** No sum of a cursor in words is too great. -/
theorem Read.run_exact (data : Bytes) (start : Nat) (reads : List Read) :
    let c := run reads (.ofBytes data start)
    c = .ofBytes data c.offset ∧ start ≤ c.offset ∧ (c.offset = start ∨ c.offset ≤ data.length) ∧
    (c.remaining : Int) = max 0 ((data.length : Int) - c.offset) ∧ (c.atEnd ↔ data.length ≤ c.offset) ∧
    (∀ r : Read,
      (r.Fits data c.offset → ∃ a taken, r.decoder c = .ok a (.ofBytes data (c.offset + taken.length)) ∧
        c.offset + taken.length ≤ data.length ∧ data.slice c.offset taken.length = taken ∧ r.Spells taken a) ∧
      (¬ r.Fits data c.offset → ∃ fault, r.decoder c = .error fault c)) ∧
    ∀ w : WordCursor, w.cursor = .ofBytes data start → ∃ later, w.run reads = some later ∧ later.cursor = c ∧
      later.remaining.toNat = c.remaining ∧ later.atEnd = c.atEnd ∧
      ∀ r : Read, ∃ result, later.read r = some result ∧ WordCursor.unbounded result = r.decoder c := by
  intro c
  obtain ⟨offset, stands, forward, within⟩ := run_ofBytes reads data start
  have here : c = .ofBytes data offset := stands
  clear_value c
  subst here
  have remaining : (Cursor.ofBytes data offset).remaining = data.length - offset := rfl
  refine ⟨rfl, forward, within, ?_, ?_, fun r => r.exact data offset, fun w same => ?_⟩
  · rw [remaining]
    show _ = max 0 ((data.length : Int) - (offset : Int))
    omega
  · rw [Cursor.atEnd_iff, remaining, Nat.sub_eq_zero_iff_le]
    rfl
  · obtain ⟨later, ran, there⟩ := w.run_eq reads
    rw [same, stands] at there
    refine ⟨later, ran, there, ?_, ?_, fun r => ?_⟩
    · rw [WordCursor.toNat_remaining, there]
    · rw [WordCursor.atEnd_eq, there]
    · rw [← there]
      exact later.read_eq r

/-- A text that is torn behind its size, and bytes that would end beyond all words, behind one byte. -/
theorem Read.run_exact_torn :
    let reads : List Read := [.u8, .text, .bytes 0xFFFFFFFFFFFFFFFF]
    let w : WordCursor := ⟨[0x07, 0x05, 0x00, 0x61], by decide, 0⟩
    (run reads w.cursor).offset = 1 ∧ ∃ later, w.run reads = some later ∧ later.cursor = run reads w.cursor ∧
      ∃ fault, Read.decoder .text (run reads w.cursor) = .error fault (run reads w.cursor) := by
  intro reads w
  obtain ⟨-, -, -, -, -, exact, words⟩ := Read.run_exact w.data 0 reads
  obtain ⟨later, ran, same, -⟩ := words w rfl
  refine ⟨by decide +kernel, later, ran, same, (exact .text).2 ?_⟩
  rintro ⟨-, within, -⟩
  revert within
  decide +kernel

end DemoTape
