/-
# What decoders take

`Decoder.Takes decoder spells` says that whenever the decoder succeeds, the bytes that it went over spell what
it read. It is the other direction of `Decoder.Reads`: there bytes are given and read, here something was read
and the bytes are asked for, on a buffer of which nothing is known. Decoders that are put together go over
their bytes one behind the other (`takes_bind`), so such facts too are proved along the form of a decoder.

Where what is read is the content of something that can be stored, `Spelled` says that the bytes store it.
-/
import DemoTape.Proofs.Decoding.Reads
import DemoTape.Proofs.Text.Spelling

namespace DemoTape
set_option autoImplicit false

-- powers are those of the core library, whatever else is loaded
attribute [local instance (high)] instPowNat

namespace Binary

theorem toWord_ofWord {f : FloatFormat} {word : Nat} (small : word < 2 * f.signPlace) :
    (ofWord f word).toWord = word := by
  unfold ofWord toWord
  dsimp only
  by_cases high : f.signPlace ≤ word
  · have rest : word % f.signPlace = word - f.signPlace := by
      rw [Nat.mod_eq_sub_mod high, Nat.mod_eq_of_lt (by omega)]
    simp only [high, decide_true, if_true, rest]
    omega
  · simp [high, Nat.mod_eq_of_lt (Nat.lt_of_not_le high)]

end Binary

/-- Whether a cursor that went over these bytes has come to stand where the other one stands. -/
def Cursor.Over (c : Cursor) (bytes : Bytes) (after : Cursor) : Prop :=
  c.rest = bytes ++ after.rest ∧ after = c.advance bytes.length

namespace Cursor

theorem Over.refl (c : Cursor) : c.Over [] c := ⟨rfl, by rw [List.length_nil, advance_zero]⟩

theorem Over.trans {c between after : Cursor} {front back : Bytes} (first : c.Over front between)
    (second : between.Over back after) : c.Over (front ++ back) after := by
  obtain ⟨here, rfl⟩ := first
  obtain ⟨there, rfl⟩ := second
  constructor
  · rw [here, there, List.append_assoc]
  · rw [advance_advance, List.length_append]

theorem over_take {c : Cursor} {n : Nat} (fits : c.offset + n ≤ c.size) :
    c.Over (c.rest.take n) (c.advance n) ∧ (c.rest.take n).length = n := by
  have length := c.length_rest
  have size : (c.rest.take n).length = n := by
    rw [List.length_take]
    omega
  refine ⟨⟨?_, by rw [size]⟩, size⟩
  rw [rest_advance, List.take_append_drop]

/-- In terms of the bytes under the cursor: those from its offset to the new one. -/
theorem Over.extract {data bytes : Bytes} {start : Nat} {after : Cursor}
    (passed : (Cursor.ofBytes data start).Over bytes after) : data.extract start after.offset = bytes := by
  obtain ⟨here, rfl⟩ := passed
  have rest : data.drop start = bytes ++ ((Cursor.ofBytes data start).advance bytes.length).rest := here
  have length : start + bytes.length - start = bytes.length := Nat.add_sub_cancel_left _ _
  show (data.drop start).take (start + bytes.length - start) = bytes
  rw [length, rest, List.take_left]

end Cursor

namespace Decoder
variable {α β γ : Type}

def Takes (decoder : Decoder α) (spells : Bytes → α → Prop) : Prop :=
  ∀ ⦃c a after⦄, decoder c = .ok a after → ∃ bytes, c.Over bytes after ∧ spells bytes a

/-- Whether these bytes store something with this content. -/
def Spelled (encode : γ → Bytes) (content : γ → α) (bytes : Bytes) (a : α) : Prop :=
  ∃ stored, content stored = a ∧ encode stored = bytes

/-! ## Sequences -/

theorem takes_pure {spells : Bytes → α → Prop} {a : α} (nothing : spells [] a) : Takes (pure a) spells := by
  rintro c _ _ ⟨⟩
  exact ⟨[], .refl c, nothing⟩

theorem takes_corrupt {spells : Bytes → α → Prop} (offset : Nat) (cause : Corruption) :
    Takes (corrupt offset cause) spells := by
  rintro c _ _ ⟨⟩

theorem takes_bind {decoder : Decoder α} {next : α → Decoder β} {taken : Bytes → α → Prop}
    {spells : Bytes → β → Prop} (first : decoder.Takes taken)
    (second : ∀ front a, taken front a → (next a).Takes fun back b => spells (front ++ back) b) :
    (decoder >>= next).Takes spells := by
  intro c b after read
  obtain ⟨a, between, got, read⟩ := bind_eq_ok.mp read
  obtain ⟨front, passed, here⟩ := first got
  obtain ⟨back, further, all⟩ := second front a here read
  exact ⟨front ++ back, passed.trans further, all⟩

theorem takes_map {decoder : Decoder α} {f : α → β} {spells : Bytes → β → Prop}
    (read : decoder.Takes fun bytes a => spells bytes (f a)) : (f <$> decoder).Takes spells := by
  intro c b after mapped
  obtain ⟨a, got, rfl⟩ := map_eq_ok.mp mapped
  exact read got

theorem Takes.imp {decoder : Decoder α} {spells also : Bytes → α → Prop} (read : decoder.Takes spells)
    (implied : ∀ bytes a, spells bytes a → also bytes a) : decoder.Takes also := by
  intro c a after got
  obtain ⟨bytes, passed, here⟩ := read got
  exact ⟨bytes, passed, implied bytes a here⟩

theorem takes_offset {next : Nat → Decoder β} {spells : Bytes → β → Prop}
    (each : ∀ offset, (next offset).Takes spells) : (offset >>= next).Takes spells :=
  fun c _ _ read => each c.offset read

theorem takes_ite {left right : Decoder α} {p : Prop} [Decidable p] {spells : Bytes → α → Prop}
    (yes : p → left.Takes spells) (no : ¬p → right.Takes spells) : (if p then left else right).Takes spells := by
  split
  · rename_i holds
    exact yes holds
  · rename_i fails
    exact no fails

theorem Takes.atomically {decoder : Decoder α} {spells : Bytes → α → Prop} (read : decoder.Takes spells) :
    decoder.atomically.Takes spells := by
  intro c a after got
  unfold Decoder.atomically at got
  split at got
  · rename_i a between succeeded
    cases got
    exact read succeeded
  · cases got

/-! ## Single reads -/

theorem takes_bytes (n : Nat) : (bytes n).Takes fun taken bs => bs = taken ∧ taken.length = n := by
  intro c bs after read
  obtain ⟨fits, rfl, rfl⟩ := bytes_eq_ok.mp read
  obtain ⟨passed, length⟩ := Cursor.over_take fits
  exact ⟨_, passed, rfl, length⟩

theorem takes_skip (n : Nat) : (skip n).Takes fun taken _ => taken.length = n := by
  intro c _ after read
  unfold skip at read
  split at read
  · rename_i fits
    cases read
    exact ⟨_, Cursor.over_take fits⟩
  · cases read

theorem takes_word (width : Nat) :
    (word width).Takes fun taken n => taken = Bytes.ofNat width n ∧ n < 256 ^ width := by
  refine takes_map ((takes_bytes width).imp ?_)
  rintro _ taken ⟨rfl, rfl⟩
  exact ⟨(Bytes.ofNat_toNat taken).symm, Bytes.toNat_lt taken⟩

theorem takes_u8 : u8.Takes fun taken b => taken = [b] := by
  refine takes_map ((takes_word 1).imp ?_)
  rintro _ n ⟨rfl, small⟩
  simp [Bytes.ofNat]

theorem takes_u16 : u16.Takes fun taken v => taken = Bytes.ofNat 2 v.toNat := by
  refine takes_map ((takes_word 2).imp ?_)
  rintro _ n ⟨rfl, small⟩
  rw [UInt16.toNat_ofNat_of_lt' small]

theorem takes_u32 : u32.Takes fun taken v => taken = Bytes.ofNat 4 v.toNat := by
  refine takes_map ((takes_word 4).imp ?_)
  rintro _ n ⟨rfl, small⟩
  rw [UInt32.toNat_ofNat_of_lt' small]

theorem takes_i32 : i32.Takes fun taken i => taken = Bytes.ofNat 4 i.toUInt32.toNat := by
  refine takes_map (takes_u32.imp ?_)
  rintro _ v rfl
  rfl

theorem takes_f32 : f32.Takes fun taken x => taken = Bytes.ofNat 4 x.toWord := by
  refine takes_map ((takes_word 4).imp ?_)
  rintro _ n ⟨rfl, small⟩
  rw [Binary.toWord_ofWord small]

/-! ## Texts and lists -/

theorem takes_text : text.Takes fun taken s =>
    taken = Bytes.ofNat 2 (Utf8.encode s).length ++ Utf8.encode s ∧ (Utf8.encode s).length ≤ 65535 := by
  refine Takes.atomically (takes_offset fun start => takes_bind takes_u16 ?_)
  rintro _ size rfl
  refine takes_bind (takes_bytes size.toNat) ?_
  rintro body _ ⟨rfl, length⟩
  split
  · rename_i s read
    apply takes_pure
    rw [Utf8.encode_of_decode read, length, List.append_nil]
    exact ⟨rfl, Nat.le_of_lt_succ size.toNat_lt⟩
  · exact takes_corrupt _ _

theorem takes_replicate {decoder : Decoder α} {encode : γ → Bytes} {content : γ → α}
    (each : decoder.Takes (Spelled encode content)) (n : Nat) :
    (replicate decoder n).Takes fun taken read =>
      ∃ items : List γ, items.length = n ∧ items.map content = read ∧ items.flatMap encode = taken := by
  induction n with
  | zero => exact takes_pure ⟨[], rfl, rfl, rfl⟩
  | succ n ih =>
    refine takes_bind each ?_
    rintro _ _ ⟨item, rfl, rfl⟩
    refine takes_bind ih ?_
    rintro _ _ ⟨items, rfl, rfl, rfl⟩
    exact takes_pure ⟨item :: items, rfl, rfl, by rw [List.flatMap_cons, List.append_nil]⟩

theorem takes_counted {decoder : Decoder α} {encode : γ → Bytes} {content : γ → α}
    (each : decoder.Takes (Spelled encode content)) :
    (counted decoder).Takes fun taken read =>
      ∃ items : List γ, items.length ≤ 65535 ∧ items.map content = read ∧
        Bytes.ofNat 2 items.length ++ items.flatMap encode = taken := by
  refine takes_bind takes_u16 ?_
  rintro _ count rfl
  refine (takes_replicate each count.toNat).imp ?_
  rintro _ _ ⟨items, length, rfl, rfl⟩
  exact ⟨items, length ▸ Nat.le_of_lt_succ count.toNat_lt, rfl, by rw [length]⟩

end Decoder
end DemoTape
