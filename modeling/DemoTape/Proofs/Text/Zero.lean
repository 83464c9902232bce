/-
# Zero bytes of a text

Only U+0000 has a zero among its bytes (`zero_mem_encode`). Reading for display does not bring one in either: what
bytes without a zero show has no U+0000 in it, whatever is invalid about them (`zero_not_mem_decodeLossy`). A character
under construction can still come to any number from `Opening.least` on and below `Opening.bound`, and each further byte
narrows these down. They are scalar values from the first byte on, and none of them is zero.
-/
import DemoTape.Proofs.Text.Spelling

namespace DemoTape.Utf8
set_option autoImplicit false

-- powers are those of the core library, whatever else is loaded
attribute [local instance (high)] instPowNat

/-! ## Writing -/

theorem zero_mem_encodeChar {c : Char} : 0 ∈ String.utf8EncodeChar c ↔ c = '\x00' := by
  have scalar : c.val.toNat < 0xD800 ∨ 0xDFFF < c.val.toNat ∧ c.val.toNat < 0x110000 := c.valid
  have zero : c = '\x00' ↔ c.val.toNat = 0 := by
    rw [← Char.toNat_inj]
    rfl
  have byte {n : Nat} (positive : 0 < n) (small : n < 256) : (0 : UInt8) ≠ UInt8.ofNat n := by
    intro same
    have numbers := congrArg UInt8.toNat same
    rw [UInt8.toNat_ofNat_of_lt' small] at numbers
    exact Nat.ne_of_lt positive numbers
  rw [zero]
  unfold String.utf8EncodeChar
  dsimp only
  generalize c.val.toNat = v at scalar
  split
  · by_cases none : v = 0
    · simp [none]
    · simp only [List.mem_singleton, byte (n := v) (by omega) (by omega), none]
  split
  · simp only [List.mem_cons, List.not_mem_nil, byte (n := v / 64 % 32 + 192) (by omega) (by omega),
      byte (n := v % 64 + 128) (by omega) (by omega), or_self, false_iff]
    omega
  split
  · simp only [List.mem_cons, List.not_mem_nil, byte (n := v / 4096 % 16 + 224) (by omega) (by omega),
      byte (n := v / 64 % 64 + 128) (by omega) (by omega), byte (n := v % 64 + 128) (by omega) (by omega),
      or_self, false_iff]
    omega
  · simp only [List.mem_cons, List.not_mem_nil, byte (n := v / 262144 % 8 + 240) (by omega) (by omega),
      byte (n := v / 4096 % 64 + 128) (by omega) (by omega), byte (n := v / 64 % 64 + 128) (by omega) (by omega),
      byte (n := v % 64 + 128) (by omega) (by omega), or_self, false_iff]
    omega

theorem zero_mem_encode {s : String} : 0 ∈ encode s ↔ '\x00' ∈ s.toList := by
  simp [encode, List.mem_flatMap, zero_mem_encodeChar]

/-! ## Reading for display -/

namespace Opening

/-- The least number that an open character can still come to. -/
def least (o : Opening) : Nat := (o.scalar * 64 + (o.low - 0x80)) * 64 ^ o.missing

/-- A number above all those that an open character can still come to. -/
def bound (o : Opening) : Nat := (o.scalar * 64 + (o.high - 0x80) + 1) * 64 ^ o.missing

/-- Whether an open character comes to a scalar value other than zero. -/
structure Sound (o : Opening) : Prop where
  tail : 0x80 ≤ o.low
  positive : 0 < o.least
  valid : o.bound ≤ 0xD800 ∨ 0xE000 ≤ o.least ∧ o.bound ≤ 0x110000

end Opening

/-- Whether what one byte yields shows no U+0000, now or later. -/
def Yield.Sound (y : Yield) : Prop := (∀ segment ∈ y.1, segment.shown ≠ '\x00') ∧ ∀ o ∈ y.2, o.Sound

theorem ofNat_ne_zero {v : Nat} (positive : 0 < v) (valid : v < 0xD800 ∨ 0xDFFF < v ∧ v < 0x110000) :
    Char.ofNat v ≠ '\x00' := by
  intro same
  have number := toNat_val_ofNat (v := v) valid
  rw [same] at number
  exact Nat.ne_of_lt positive number

theorem sound_char {v : Nat} (positive : 0 < v) (valid : v < 0xD800 ∨ 0xDFFF < v ∧ v < 0x110000) :
    Yield.Sound ([.char (Char.ofNat v)], none) := by
  simpa [Yield.Sound, Segment.shown] using ofNat_ne_zero positive valid

theorem sound_open {o : Opening} (sound : o.Sound) : Yield.Sound ([], some o) := by
  simpa [Yield.Sound] using sound

theorem sound_start {b : UInt8} (nonzero : b ≠ 0) : Yield.Sound (start b) := by
  have positive : 0 < b.toNat := Nat.pos_of_ne_zero fun zero => nonzero (UInt8.toNat_inj.mp zero)
  have invalid : Yield.Sound ([.invalid 1], none) := by simp [Yield.Sound, Segment.shown]
  unfold start
  dsimp only
  split
  · exact sound_char positive (by omega)
  split
  · exact invalid
  split
  · refine sound_open ⟨Nat.le_refl _, ?_, ?_⟩ <;> simp only [Opening.least, Opening.bound] <;> omega
  split
  · refine sound_open ⟨?_, ?_, ?_⟩ <;> simp only [Opening.least, Opening.bound] <;>
      split <;> (try split) <;> omega
  split
  · refine sound_open ⟨?_, ?_, ?_⟩ <;> simp only [Opening.least, Opening.bound] <;>
      split <;> (try split) <;> omega
  · exact invalid

/-- A further byte narrows down what an open character can come to. -/
theorem sound_push {o : Opening} (sound : o.Sound) {b : UInt8} (inside : o.low ≤ b.toNat ∧ b.toNat ≤ o.high) :
    Yield.Sound (o.push b) := by
  obtain ⟨scalar, taken, missing, low, high⟩ := o
  obtain ⟨tail, positive, valid⟩ := sound
  simp only [Opening.least, Opening.bound] at tail positive valid inside
  cases missing with
  | zero =>
    simp only [Nat.pow_zero, Nat.mul_one] at positive valid
    exact sound_char (v := scalar * 64 + (b.toNat - 0x80)) (by omega) (by omega)
  | succ missing =>
    -- what is left are the numbers whose digit at this place is the byte
    have above : (scalar * 64 + (low - 0x80)) * 64 ^ (missing + 1) ≤
        (scalar * 64 + (b.toNat - 0x80)) * 64 ^ (missing + 1) := Nat.mul_le_mul_right _ (by omega)
    have below : (scalar * 64 + (b.toNat - 0x80) + 1) * 64 ^ (missing + 1) ≤
        (scalar * 64 + (high - 0x80) + 1) * 64 ^ (missing + 1) := Nat.mul_le_mul_right _ (by omega)
    have least : ((scalar * 64 + (b.toNat - 0x80)) * 64 + (0x80 - 0x80)) * 64 ^ missing =
        (scalar * 64 + (b.toNat - 0x80)) * 64 ^ (missing + 1) := by
      rw [Nat.pow_succ', Nat.sub_self, Nat.add_zero, Nat.mul_assoc]
    have bound : ((scalar * 64 + (b.toNat - 0x80)) * 64 + (0xBF - 0x80) + 1) * 64 ^ missing =
        (scalar * 64 + (b.toNat - 0x80) + 1) * 64 ^ (missing + 1) := by
      rw [Nat.pow_succ', ← Nat.mul_assoc, Nat.add_mul _ 1 64, Nat.add_assoc]
    refine sound_open ⟨Nat.le_refl _, ?_, ?_⟩ <;> simp only [Opening.least, Opening.bound, least, bound] <;> omega

theorem sound_step {state : Option Opening} (sound : ∀ o ∈ state, o.Sound) {b : UInt8} (nonzero : b ≠ 0) :
    Yield.Sound (step state b) := by
  cases state with
  | none => exact sound_start nonzero
  | some o =>
    unfold step
    dsimp only
    split
    · rename_i inside
      exact sound_push (sound o rfl) inside
    · obtain ⟨shown, later⟩ := sound_start nonzero
      exact ⟨List.forall_mem_cons.mpr ⟨by simp [Segment.shown], shown⟩, later⟩

theorem shown_segmentsFrom {state : Option Opening} (sound : ∀ o ∈ state, o.Sound) {bytes : List UInt8}
    (free : 0 ∉ bytes) : ∀ segment ∈ segmentsFrom state bytes, segment.shown ≠ '\x00' := by
  induction bytes generalizing state with
  | nil =>
    cases state with
    | none => nofun
    | some o => simp [segmentsFrom, Segment.shown]
  | cons b rest ih =>
    rw [List.mem_cons, not_or] at free
    obtain ⟨nonzero, free⟩ := free
    obtain ⟨now, later⟩ := sound_step sound (Ne.symm nonzero)
    rw [segmentsFrom_cons]
    exact List.forall_mem_append.mpr ⟨now, ih later free⟩

/-- Bytes without a zero are shown without one. -/
theorem zero_not_mem_decodeLossy {bytes : List UInt8} (free : 0 ∉ bytes) : '\x00' ∉ (decodeLossy bytes).toList := by
  rw [decodeLossy, String.toList_ofList, List.mem_map]
  rintro ⟨segment, member, zero⟩
  exact shown_segmentsFrom (by simp) free segment member zero

end DemoTape.Utf8
