/-
# What decoders read

`Decoder.Reads d bytes a` says that the decoder, wherever it meets these bytes, reads `a` from them and goes
on right behind them, whatever stands there. Decoders that are put together read the bytes one behind the
other, so such facts are proved along the form of a decoder.
-/
import DemoTape.Proofs.Decoding.Forward

namespace DemoTape
set_option autoImplicit false

-- powers are those of the core library, whatever else is loaded
attribute [local instance (high)] instPowNat

namespace Binary
variable {f : FloatFormat}

theorem ofWord_toWord (x : Binary f) : ofWord f x.toWord = x := by
  obtain ⟨negative, magnitude, below⟩ := x
  cases negative with
  | true => simp [ofWord, toWord, Nat.mod_eq_of_lt below]
  | false => simp [ofWord, toWord, Nat.mod_eq_of_lt below, below]

theorem toWord_lt (x : Binary f) : x.toWord < 2 * f.signPlace := by
  have below := x.magnitude_lt
  unfold toWord
  split <;> omega

end Binary

/-- Whether a cursor stands in front of these bytes. -/
def Cursor.At (c : Cursor) (bytes : Bytes) : Prop := c.offset ≤ c.size ∧ ∃ back, c.rest = bytes ++ back

namespace Cursor

theorem At.fits {c : Cursor} {bytes : Bytes} (met : c.At bytes) : c.offset + bytes.length ≤ c.size := by
  obtain ⟨inside, back, here⟩ := met
  have length := c.length_rest
  rw [here, List.length_append] at length
  omega

theorem At.remaining {c : Cursor} {bytes : Bytes} (met : c.At bytes) : bytes.length ≤ c.remaining := by
  have fits := met.fits
  unfold Cursor.remaining
  omega

theorem At.take {c : Cursor} {bytes : Bytes} (met : c.At bytes) : c.rest.take bytes.length = bytes := by
  obtain ⟨-, back, here⟩ := met
  rw [here, List.take_left]

theorem At.front {c : Cursor} {bytes more : Bytes} (met : c.At (bytes ++ more)) : c.At bytes := by
  obtain ⟨inside, back, here⟩ := met
  exact ⟨inside, more ++ back, by rw [here, List.append_assoc]⟩

theorem At.advance {c : Cursor} {bytes more : Bytes} (met : c.At (bytes ++ more)) :
    (c.advance bytes.length).At more := by
  have fits := met.front.fits
  obtain ⟨-, back, here⟩ := met
  refine ⟨fits, back, ?_⟩
  rw [rest_advance, here, List.append_assoc, List.drop_left]

end Cursor

namespace Decoder
variable {α β : Type}

def Reads (decoder : Decoder α) (bytes : Bytes) (a : α) : Prop :=
  ∀ c : Cursor, c.At bytes → decoder c = .ok a (c.advance bytes.length)

theorem reads_pure (a : α) : Reads (pure a) [] a := by
  intro c _
  rw [List.length_nil, Cursor.advance_zero]
  rfl

theorem Reads.bind {decoder : Decoder α} {next : α → Decoder β} {front back : Bytes} {a : α} {b : β}
    (first : decoder.Reads front a) (second : (next a).Reads back b) :
    (decoder >>= next).Reads (front ++ back) b := by
  intro c met
  rw [bind_apply, first c met.front]
  dsimp only
  rw [second _ met.advance, Cursor.advance_advance, List.length_append]

theorem Reads.map {decoder : Decoder α} {bytes : Bytes} {a : α} (f : α → β) (read : decoder.Reads bytes a) :
    (f <$> decoder).Reads bytes (f a) := by
  intro c met
  rw [map_apply, read c met]

/-- What is done with a result in the end takes no bytes. -/
theorem Reads.bind_pure {decoder : Decoder α} {next : α → Decoder β} {bytes : Bytes} {a : α} {b : β}
    (first : decoder.Reads bytes a) (second : next a = pure b) : (decoder >>= next).Reads bytes b := by
  have rest : (next a).Reads [] b := second ▸ reads_pure b
  have both := first.bind rest
  rwa [List.append_nil] at both

theorem reads_offset {next : Nat → Decoder β} {bytes : Bytes} {b : β}
    (each : ∀ offset, (next offset).Reads bytes b) : (offset >>= next).Reads bytes b :=
  fun c met => each c.offset c met

/-- At least the bytes that are to be read remain. -/
theorem reads_remaining {next : Nat → Decoder β} {bytes : Bytes} {b : β}
    (each : ∀ remaining, bytes.length ≤ remaining → (next remaining).Reads bytes b) :
    (remaining >>= next).Reads bytes b :=
  fun c met => each c.remaining met.remaining c met

/-- In front of a byte the end has not been reached. -/
theorem reads_atEnd {next : Bool → Decoder β} {byte : UInt8} {bytes : Bytes} {b : β}
    (further : (next false).Reads (byte :: bytes) b) : (atEnd >>= next).Reads (byte :: bytes) b := by
  intro c met
  have left := met.remaining
  rw [List.length_cons] at left
  have within : c.atEnd = false := by
    rw [Bool.eq_false_iff, ne_eq, Cursor.atEnd_iff]
    omega
  show next c.atEnd c = _
  rw [within]
  exact further c met

theorem Reads.atomically {decoder : Decoder α} {bytes : Bytes} {a : α} (read : decoder.Reads bytes a) :
    decoder.atomically.Reads bytes a := by
  intro c met
  rw [Decoder.atomically, read c met]

/-! ## Single reads -/

theorem reads_bytes {n : Nat} {data : Bytes} (length : data.length = n) : (bytes n).Reads data data := by
  subst length
  intro c met
  rw [bytes_ok met.fits, met.take]

theorem reads_skip {n : Nat} {data : Bytes} (length : data.length = n) : (skip n).Reads data () := by
  subst length
  intro c met
  rw [skip, if_pos met.fits]

theorem reads_word (width : Nat) {n : Nat} (fits : n < 256 ^ width) :
    (word width).Reads (Bytes.ofNat width n) n := by
  have read := (reads_bytes (Bytes.length_ofNat width n)).map Bytes.toNat
  rwa [Bytes.toNat_ofNat fits] at read

theorem reads_u8 (b : UInt8) : u8.Reads [b] b := by
  have read := (reads_word 1 b.toNat_lt).map UInt8.ofNat
  have byte : Bytes.ofNat 1 b.toNat = [b] := by simp [Bytes.ofNat]
  rwa [byte, UInt8.ofNat_toNat] at read

theorem reads_u16 (v : UInt16) : u16.Reads (Bytes.ofNat 2 v.toNat) v := by
  have read := (reads_word 2 v.toNat_lt).map UInt16.ofNat
  rwa [UInt16.ofNat_toNat] at read

theorem reads_u32 (v : UInt32) : u32.Reads (Bytes.ofNat 4 v.toNat) v := by
  have read := (reads_word 4 v.toNat_lt).map UInt32.ofNat
  rwa [UInt32.ofNat_toNat] at read

theorem reads_i32 (i : Int32) : i32.Reads (Bytes.ofNat 4 i.toUInt32.toNat) i := by
  have read := (reads_u32 i.toUInt32).map UInt32.toInt32
  rwa [Int32.toInt32_toUInt32] at read

theorem reads_f32 (x : Binary32) : f32.Reads (Bytes.ofNat 4 x.toWord) x := by
  have read := (reads_word 4 x.toWord_lt).map (Binary.ofWord .single)
  rwa [Binary.ofWord_toWord] at read

/-! ## Texts and lists -/

/-- What is read behind its size in two bytes. -/
theorem reads_sized {next : UInt16 → Decoder β} {n : Nat} {bytes : Bytes} {b : β} (few : n ≤ 65535)
    (body : ∀ size : UInt16, size.toNat = n → (next size).Reads bytes b) :
    (u16 >>= next).Reads (Bytes.ofNat 2 n ++ bytes) b := by
  have same : (UInt16.ofNat n).toNat = n := UInt16.toNat_ofNat_of_lt' (Nat.lt_succ_of_le few)
  have size := reads_u16 (UInt16.ofNat n)
  rw [same] at size
  exact size.bind (body _ same)

theorem reads_text {s : String} (short : (Utf8.encode s).length ≤ 65535) :
    text.Reads (Bytes.ofNat 2 (Utf8.encode s).length ++ Utf8.encode s) s := by
  refine Reads.atomically (reads_offset fun start => reads_sized short fun size same => ?_)
  refine (reads_bytes same.symm).bind_pure ?_
  rw [Utf8.decode_encode]

/-- Items are read one behind the other. -/
theorem reads_replicate {γ : Type} {decoder : Decoder α} {encode : γ → Bytes} {content : γ → α} {items : List γ}
    (each : ∀ g ∈ items, decoder.Reads (encode g) (content g)) :
    (replicate decoder items.length).Reads (items.flatMap encode) (items.map content) := by
  induction items with
  | nil => exact reads_pure []
  | cons g items ih =>
    obtain ⟨here, further⟩ := List.forall_mem_cons.mp each
    exact here.bind ((ih further).bind_pure rfl)

theorem reads_counted {γ : Type} {decoder : Decoder α} {encode : γ → Bytes} {content : γ → α} {items : List γ}
    (few : items.length ≤ 65535) (each : ∀ g ∈ items, decoder.Reads (encode g) (content g)) :
    (counted decoder).Reads (Bytes.ofNat 2 items.length ++ items.flatMap encode) (items.map content) := by
  refine reads_sized few fun count same => ?_
  rw [same]
  exact reads_replicate each

end Decoder
end DemoTape
