/-
# Exact reads

Every decoder is made of reads of a given number of bytes and of texts. `Read.Fits` says, of a buffer and an offset
alone, when such a read succeeds. It then goes over the bytes that spell what it read, no more and no less; and
otherwise it leaves the cursor where it was, also behind a text whose size was there and whose bytes were not
(`Read.exact`). So after any reads, whether they failed or not, the cursor stands at an offset of the same buffer,
within it unless it has not moved at all (`Read.run_ofBytes`).
-/
import DemoTape.Proofs.Decoding.Slices
import DemoTape.Proofs.Decoding.Takes

namespace DemoTape
set_option autoImplicit false

namespace Decoder
variable {α : Type}

/-! ## Texts -/

theorem toNat_ofNat_slice {data : Bytes} {offset : Nat} (there : offset + 2 ≤ data.length) :
    (UInt16.ofNat (data.slice offset 2).toNat).toNat = (data.slice offset 2).toNat :=
  UInt16.toNat_ofNat_of_lt' (Bytes.toNat_slice_lt there)

/-- The three ways in which a text is not read leave the cursor in front of its size. -/
theorem text_ofBytes (data : Bytes) (offset : Nat) : text (.ofBytes data offset) =
    if offset + 2 ≤ data.length then
      if offset + 2 + (data.slice offset 2).toNat ≤ data.length then
        match Utf8.decode (data.slice (offset + 2) (data.slice offset 2).toNat) with
        | .ok s => .ok s (.ofBytes data (offset + 2 + (data.slice offset 2).toNat))
        | .error flaw => .error (.corrupt offset (.invalidText flaw)) (.ofBytes data offset)
      else .error (.endOfData (offset + 2) (data.slice offset 2).toNat (data.length - (offset + 2)))
        (.ofBytes data offset)
    else .error (.endOfData offset 2 (data.length - offset)) (.ofBytes data offset) := by
  have place : Decoder.offset (.ofBytes data offset) = .ok offset (.ofBytes data offset) := rfl
  unfold text atomically
  rw [bind_apply, place]
  dsimp only
  rw [bind_apply, fixed_u16]
  by_cases there : offset + 2 ≤ data.length
  · rw [if_pos there, if_pos there]
    dsimp only [Function.comp]
    rw [bind_apply, toNat_ofNat_slice there, fixed_bytes]
    by_cases within : offset + 2 + (data.slice offset 2).toNat ≤ data.length
    · rw [if_pos within, if_pos within]
      dsimp only [id]
      cases Utf8.decode (data.slice (offset + 2) (data.slice offset 2).toNat) <;> rfl
    · rw [if_neg within, if_neg within]
  · rw [if_neg there, if_neg there]

/-! ## Exactness -/

/-- Whether a decoder succeeds exactly where this fits, and then goes over bytes that spell what it reads. -/
def Exact (decoder : Decoder α) (fits : Bytes → Nat → Prop) (spells : Bytes → α → Prop) : Prop :=
  ∀ (data : Bytes) (offset : Nat),
    (fits data offset → ∃ a taken, decoder (.ofBytes data offset) = .ok a (.ofBytes data (offset + taken.length)) ∧
      offset + taken.length ≤ data.length ∧ data.slice offset taken.length = taken ∧ spells taken a) ∧
    (¬ fits data offset → ∃ fault, decoder (.ofBytes data offset) = .error fault (.ofBytes data offset))

theorem Takes.exact {decoder : Decoder α} {spells : Bytes → α → Prop} (takes : decoder.Takes spells) {data : Bytes}
    {offset n : Nat} {a : α} (read : decoder (.ofBytes data offset) = .ok a (.ofBytes data (offset + n)))
    (within : offset + n ≤ data.length) :
    ∃ a taken, decoder (.ofBytes data offset) = .ok a (.ofBytes data (offset + taken.length)) ∧
      offset + taken.length ≤ data.length ∧ data.slice offset taken.length = taken ∧ spells taken a := by
  obtain ⟨taken, ⟨here, moved⟩, spelled⟩ := takes read
  have length : offset + n = offset + taken.length := congrArg Cursor.offset moved
  rw [length] at read within
  refine ⟨a, taken, read, within, ?_, spelled⟩
  have rest : data.drop offset = taken ++ _ := here
  rw [Bytes.slice, rest, List.take_left]

theorem Fixed.exact {decoder : Decoder α} {n : Nat} {value : Bytes → α} (fixed : decoder.Fixed n value)
    {spells : Bytes → α → Prop} (takes : decoder.Takes spells) :
    decoder.Exact (fun data offset => offset + n ≤ data.length) spells := by
  intro data offset
  refine ⟨fun fits => takes.exact ((fixed data offset).trans (if_pos fits)) fits, fun short => ?_⟩
  exact ⟨_, (fixed data offset).trans (if_neg short)⟩

/-- Whether a text and its size are there, and its bytes are those of a text. -/
def TextFits (data : Bytes) (offset : Nat) : Prop :=
  let size := (data.slice offset 2).toNat
  offset + 2 ≤ data.length ∧ offset + 2 + size ≤ data.length ∧ ∃ s, Utf8.encode s = data.slice (offset + 2) size

theorem exact_text : text.Exact TextFits fun taken s =>
    taken = Bytes.ofNat 2 (Utf8.encode s).length ++ Utf8.encode s ∧ (Utf8.encode s).length ≤ 65535 := by
  intro data offset
  have result := text_ofBytes data offset
  constructor
  · rintro ⟨there, within, s, body⟩
    rw [if_pos there, if_pos within, ← body, Utf8.decode_encode, Nat.add_assoc] at result
    exact takes_text.exact result (Nat.add_assoc _ _ _ ▸ within)
  · intro unfit
    by_cases there : offset + 2 ≤ data.length
    · by_cases within : offset + 2 + (data.slice offset 2).toNat ≤ data.length
      · rw [if_pos there, if_pos within] at result
        cases read : Utf8.decode (data.slice (offset + 2) (data.slice offset 2).toNat) with
        | ok s => exact (unfit ⟨there, within, s, Utf8.encode_of_decode read⟩).elim
        | error flaw =>
          rw [read] at result
          exact ⟨_, result⟩
      · rw [if_pos there, if_neg within] at result
        exact ⟨_, result⟩
    · rw [if_neg there] at result
      exact ⟨_, result⟩

end Decoder

/-! ## All reads -/

/-- The reads that decoders are made of, where a number of bytes may be any word. -/
inductive Read where
  | u8
  | u16
  | u32
  | i32
  | f32
  | bytes (n : UInt64)
  | skip (n : UInt64)
  | text

namespace Read

abbrev Result : Read → Type
  | .u8 => UInt8
  | .u16 => UInt16
  | .u32 => UInt32
  | .i32 => Int32
  | .f32 => Binary32
  | .bytes _ => Bytes
  | .skip _ => Unit
  | .text => String

def decoder : (r : Read) → Decoder r.Result
  | .u8 => Decoder.u8
  | .u16 => Decoder.u16
  | .u32 => Decoder.u32
  | .i32 => Decoder.i32
  | .f32 => Decoder.f32
  | .bytes n => Decoder.bytes n.toNat
  | .skip n => Decoder.skip n.toNat
  | .text => Decoder.text

/-- Whether a read at an offset finds all that it needs. -/
def Fits : Read → Bytes → Nat → Prop
  | .u8 => fun data offset => offset + 1 ≤ data.length
  | .u16 => fun data offset => offset + 2 ≤ data.length
  | .u32 | .i32 | .f32 => fun data offset => offset + 4 ≤ data.length
  | .bytes n | .skip n => fun data offset => offset + n.toNat ≤ data.length
  | .text => Decoder.TextFits

/-- Whether these are the bytes of what is read. -/
def Spells : (r : Read) → Bytes → r.Result → Prop
  | .u8 => fun taken b => taken = [b]
  | .u16 => fun taken v => taken = Bytes.ofNat 2 v.toNat
  | .u32 => fun taken v => taken = Bytes.ofNat 4 v.toNat
  | .i32 => fun taken i => taken = Bytes.ofNat 4 i.toUInt32.toNat
  | .f32 => fun taken x => taken = Bytes.ofNat 4 x.toWord
  | .bytes n => fun taken bs => bs = taken ∧ taken.length = n.toNat
  | .skip n => fun taken _ => taken.length = n.toNat
  | .text => fun taken s =>
    taken = Bytes.ofNat 2 (Utf8.encode s).length ++ Utf8.encode s ∧ (Utf8.encode s).length ≤ 65535

theorem exact (r : Read) : r.decoder.Exact r.Fits r.Spells := by
  cases r with
  | u8 => exact Decoder.fixed_u8.exact Decoder.takes_u8
  | u16 => exact Decoder.fixed_u16.exact Decoder.takes_u16
  | u32 => exact Decoder.fixed_u32.exact Decoder.takes_u32
  | i32 => exact Decoder.fixed_i32.exact Decoder.takes_i32
  | f32 => exact Decoder.fixed_f32.exact Decoder.takes_f32
  | bytes n => exact (Decoder.fixed_bytes n.toNat).exact (Decoder.takes_bytes n.toNat)
  | skip n => exact (Decoder.fixed_skip n.toNat).exact (Decoder.takes_skip n.toNat)
  | text => exact Decoder.exact_text

/-! ## One read after the other -/

/-- Where a cursor stands after some reads, which go on from where it stands when one of them fails. -/
def run (reads : List Read) (c : Cursor) : Cursor := reads.foldl (fun c r => r.decoder.stand c) c

/-- A read leaves the cursor where it is, or within the buffer. -/
theorem stand_ofBytes (r : Read) (data : Bytes) (offset : Nat) : ∃ later,
    r.decoder.stand (.ofBytes data offset) = .ofBytes data later ∧ offset ≤ later ∧
      (later = offset ∨ later ≤ data.length) := by
  obtain ⟨success, failure⟩ := r.exact data offset
  by_cases fits : r.Fits data offset
  · obtain ⟨a, taken, read, within, -⟩ := success fits
    exact ⟨_, Decoder.stand_of_ok read, Nat.le_add_right _ _, .inr within⟩
  · obtain ⟨fault, read⟩ := failure fits
    refine ⟨offset, ?_, Nat.le_refl _, .inl rfl⟩
    rw [Decoder.stand, read]

theorem run_ofBytes (reads : List Read) (data : Bytes) (start : Nat) : ∃ offset,
    run reads (.ofBytes data start) = .ofBytes data offset ∧ start ≤ offset ∧
      (offset = start ∨ offset ≤ data.length) := by
  induction reads generalizing start with
  | nil => exact ⟨start, rfl, Nat.le_refl _, .inl rfl⟩
  | cons r reads ih =>
    obtain ⟨between, moved, forward, inside⟩ := r.stand_ofBytes data start
    obtain ⟨offset, ran, further, within⟩ := ih between
    refine ⟨offset, ?_, Nat.le_trans forward further, by omega⟩
    rw [← ran, ← moved]
    rfl

end Read
end DemoTape
