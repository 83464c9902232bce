/-
# Slices

The bytes at an offset. A decoder that reads so many of them (`Decoder.Fixed`) makes its value of a slice, and goes on
right behind it; where the buffer ends before, it says so and stays.
-/
import DemoTape.Proofs.Decoding.Forward

namespace DemoTape
set_option autoImplicit false

-- powers are those of the core library, whatever else is loaded
attribute [local instance (high)] instPowNat

/-- So many bytes at an offset. -/
def Bytes.slice (data : Bytes) (offset n : Nat) : Bytes := (data.drop offset).take n

namespace Bytes

theorem length_slice {data : Bytes} {offset n : Nat} (fits : offset + n ≤ data.length) :
    (data.slice offset n).length = n := by
  rw [slice, List.length_take, List.length_drop]
  omega

theorem toNat_slice_lt {data : Bytes} {offset n : Nat} (fits : offset + n ≤ data.length) :
    (data.slice offset n).toNat < 256 ^ n := by
  have small := toNat_lt (data.slice offset n)
  rwa [length_slice fits] at small

theorem slice_append_left {front back : Bytes} {n : Nat} (length : front.length = n) :
    slice (front ++ back) 0 n = front := by
  rw [slice, List.drop_zero, List.take_left' length]

theorem slice_append_right {front back : Bytes} {size : Nat} (length : front.length = size) (offset n : Nat) :
    slice (front ++ back) (offset + size) n = back.slice offset n := by
  rw [slice, ← length, Nat.add_comm, List.drop_length_add_append, slice]

end Bytes

/-! ## Reads of a given size -/

namespace Decoder
variable {α β : Type}

/-- Whether a decoder reads this value from so many bytes, or nothing where they are not all there. -/
def Fixed (decoder : Decoder α) (n : Nat) (value : Bytes → α) : Prop :=
  ∀ (data : Bytes) (offset : Nat), decoder (.ofBytes data offset) =
    if offset + n ≤ data.length then .ok (value (data.slice offset n)) (.ofBytes data (offset + n))
    else .error (.endOfData offset n (data.length - offset)) (.ofBytes data offset)

theorem fixed_bytes (n : Nat) : (bytes n).Fixed n id := by
  intro data offset
  rw [← Cursor.advance_ofBytes]
  rfl

theorem fixed_skip (n : Nat) : (skip n).Fixed n fun _ => () := by
  intro data offset
  rw [← Cursor.advance_ofBytes]
  rfl

theorem Fixed.map {decoder : Decoder α} {n : Nat} {value : Bytes → α} (fixed : decoder.Fixed n value) (f : α → β) :
    (f <$> decoder).Fixed n (f ∘ value) := by
  intro data offset
  rw [map_apply, fixed data offset]
  by_cases fits : offset + n ≤ data.length
  · rw [if_pos fits, if_pos fits]
    rfl
  · rw [if_neg fits, if_neg fits]

theorem fixed_word (width : Nat) : (word width).Fixed width Bytes.toNat := (fixed_bytes width).map _

theorem fixed_u8 : u8.Fixed 1 (UInt8.ofNat ∘ Bytes.toNat) := (fixed_word 1).map _

theorem fixed_u16 : u16.Fixed 2 (UInt16.ofNat ∘ Bytes.toNat) := (fixed_word 2).map _

theorem fixed_u32 : u32.Fixed 4 (UInt32.ofNat ∘ Bytes.toNat) := (fixed_word 4).map _

theorem fixed_i32 : i32.Fixed 4 (UInt32.toInt32 ∘ UInt32.ofNat ∘ Bytes.toNat) := fixed_u32.map _

theorem fixed_f32 : f32.Fixed 4 (Binary.ofWord .single ∘ Bytes.toNat) := (fixed_word 4).map _

theorem fixed_fixedText (size : Nat) :
    (fixedText size).Fixed size fun field => Utf8.decodeLossy (field.takeWhile (· ≠ 0)) := (fixed_bytes size).map _

section Offsets
variable {decoder : Decoder α} {data : Bytes} {offset n : Nat} {value : Bytes → α}

theorem Fixed.readAt_ok (fixed : decoder.Fixed n value) (fits : offset + n ≤ data.length) :
    decoder.readAt data offset = .ok (value (data.slice offset n)) := by
  rw [readAt, fixed data offset, if_pos fits]

theorem Fixed.readAt_error (fixed : decoder.Fixed n value) (short : ¬ offset + n ≤ data.length) :
    decoder.readAt data offset = .error (.endOfData offset n (data.length - offset)) := by
  rw [readAt, fixed data offset, if_neg short]

/-- What follows is read right behind. -/
theorem Fixed.readAt_bind (fixed : decoder.Fixed n value) (next : α → Decoder β) (fits : offset + n ≤ data.length) :
    (decoder >>= next).readAt data offset = (next (value (data.slice offset n))).readAt data (offset + n) := by
  rw [readAt, bind_apply, fixed data offset, if_pos fits, readAt]

end Offsets

end Decoder
end DemoTape
