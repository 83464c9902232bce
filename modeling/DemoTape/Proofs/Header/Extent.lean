/-
# How far a header reaches

A header is read from fields of fixed size, so nothing behind them counts, and nothing less will do. Fields of fixed
size are read from any bytes (`Decoder.Sized`). Hence the bytes of a header can be followed by anything
(`read_take`), and a buffer that ends before them is refused: before the end of the signature as no recording at
all, and otherwise as one that cannot be followed (`read_take_short`).
-/
import DemoTape.Proofs.Decoding.Reads
import DemoTape.Recording

namespace DemoTape
set_option autoImplicit false

/-! ## Fields of fixed size -/

namespace Decoder
variable {α β : Type}

/-- Whether any bytes of this number are read. -/
def Sized (decoder : Decoder α) (n : Nat) : Prop :=
  ∀ bytes : Bytes, bytes.length = n → ∃ a, decoder.Reads bytes a

theorem sized_bytes (n : Nat) : (bytes n).Sized n := by
  intro field length
  exact ⟨field, reads_bytes length⟩

theorem sized_pure (a : α) : (pure a : Decoder α).Sized 0 := by
  intro field length
  rw [List.length_eq_zero_iff.mp length]
  exact ⟨a, reads_pure a⟩

theorem Sized.map {decoder : Decoder α} {n : Nat} (f : α → β) (any : decoder.Sized n) : (f <$> decoder).Sized n := by
  intro field length
  obtain ⟨a, read⟩ := any field length
  exact ⟨f a, read.map f⟩

theorem Sized.bind {decoder : Decoder α} {next : α → Decoder β} {m n : Nat} (first : decoder.Sized m)
    (second : ∀ a, (next a).Sized n) : (decoder >>= next).Sized (m + n) := by
  intro field length
  have front : (field.take m).length = m := by
    rw [List.length_take]
    omega
  have back : (field.drop m).length = n := by
    rw [List.length_drop]
    omega
  obtain ⟨a, here⟩ := first _ front
  obtain ⟨b, there⟩ := second a _ back
  have both := here.bind there
  rw [List.take_append_drop] at both
  exact ⟨b, both⟩

theorem sized_u32 : u32.Sized 4 := ((sized_bytes 4).map _).map _

theorem sized_f32 : f32.Sized 4 := ((sized_bytes 4).map _).map _

theorem sized_fixedText (n : Nat) : (fixedText n).Sized n := (sized_bytes n).map _

/-- A number is not read where its bytes are not all there. -/
theorem u32_error {c : Cursor} (short : ¬ c.offset + 4 ≤ c.size) :
    u32 c = .error (.endOfData c.offset 4 c.remaining) c := by
  rw [u32, word, map_apply, map_apply, bytes_error short]

/-- Bytes behind those that are read do not count. -/
theorem Sized.readAt_take {decoder : Decoder α} {n offset limit : Nat} {data : Bytes} (any : decoder.Sized n)
    (there : offset + n ≤ data.length) (kept : offset + n ≤ limit) :
    decoder.readAt (data.take limit) offset = decoder.readAt data offset := by
  have length : ((data.drop offset).take n).length = n := by
    rw [List.length_take, List.length_drop]
    omega
  obtain ⟨a, read⟩ := any _ length
  have whole : (Cursor.ofBytes data offset).At ((data.drop offset).take n) :=
    ⟨Nat.le_of_add_right_le there, (data.drop offset).drop n, (List.take_append_drop _ _).symm⟩
  have part : (Cursor.ofBytes (data.take limit) offset).At ((data.drop offset).take n) := by
    refine ⟨?_, ((data.drop offset).take (limit - offset)).drop n, ?_⟩
    · show offset ≤ (data.take limit).length
      rw [List.length_take]
      omega
    · show (data.take limit).drop offset = _
      rw [List.drop_take]
      have prefix_ : (data.drop offset).take n = ((data.drop offset).take (limit - offset)).take n := by
        rw [List.take_take, Nat.min_eq_left (by omega)]
      rw [prefix_, List.take_append_drop]
  rw [readAt, readAt, read _ whole, read _ part]

end Decoder

/-! ## Headers -/

namespace Header

theorem sized_fields (version : UInt32) : (fields version).Sized (size - (signature.length + 4)) := by
  unfold fields
  exact Decoder.sized_u32.bind fun _ => (Decoder.sized_fixedText 260).bind fun _ =>
    (Decoder.sized_fixedText 260).bind fun _ => (Decoder.sized_fixedText 260).bind fun _ =>
    (Decoder.sized_fixedText 260).bind fun _ => Decoder.sized_f32.bind fun _ => Decoder.sized_u32.bind fun _ =>
    Decoder.sized_u32.bind fun _ => Decoder.sized_pure _

theorem readProtocol_eq_ok {data : Bytes} {version : UInt32} : readProtocol data = .ok version ↔
    data.take signature.length = signature ∧ Decoder.u32.readAt data signature.length = .ok version ∧
      lowestProtocol ≤ version ∧ version ≤ highestProtocol := by
  unfold readProtocol
  by_cases signed : data.take signature.length = signature
  · cases Decoder.u32.readAt data signature.length with
    | error fault => simp [signed, bind, Except.bind]
    | ok found =>
      by_cases outside : found < lowestProtocol ∨ highestProtocol < found
      · simp [signed, outside, bind, Except.bind, throw, throwThe, MonadExceptOf.throw]
        rintro rfl least
        exact outside.resolve_left (UInt32.not_lt.mpr least)
      · simp [signed, outside, bind, Except.bind, pure, Except.pure]
        rintro rfl
        simpa [not_or] using outside
  · simp [signed, bind, Except.bind, throw, throwThe, MonadExceptOf.throw]

theorem read_eq_ok {data : Bytes} {h : Header} : read data = .ok h ↔
    ∃ version, readProtocol data = .ok version ∧ size ≤ data.length ∧
      (fields version).readAt data (signature.length + 4) = .ok h := by
  unfold read
  cases readProtocol data with
  | error fault => simp [bind, Except.bind]
  | ok version =>
    by_cases short : data.length < size
    · simp [short, Nat.not_le.mpr short, bind, Except.bind, throw, throwThe, MonadExceptOf.throw]
    · simp [short, Nat.le_of_not_lt short, bind, Except.bind]

theorem readProtocol_take {data : Bytes} {limit : Nat} (there : signature.length + 4 ≤ data.length)
    (kept : signature.length + 4 ≤ limit) : readProtocol (data.take limit) = readProtocol data := by
  rw [readProtocol, List.take_take, Nat.min_eq_left (Nat.le_of_add_right_le kept),
    Decoder.sized_u32.readAt_take there kept, ← readProtocol]

theorem protocol_le_size : signature.length + 4 ≤ size := by decide

/-- What stands behind a header does not count. -/
theorem read_take {data : Bytes} {limit : Nat} (there : size ≤ data.length) (kept : size ≤ limit) :
    read (data.take limit) = read data := by
  have long : ¬ (data.take limit).length < size := by
    rw [List.length_take]
    omega
  have reaches := Nat.add_sub_of_le protocol_le_size
  have fields (version : UInt32) : (fields version).readAt (data.take limit) (signature.length + 4) =
      (fields version).readAt data (signature.length + 4) :=
    (sized_fields version).readAt_take (by rwa [reaches]) (by rwa [reaches])
  unfold read
  rw [readProtocol_take (Nat.le_trans protocol_le_size there) (Nat.le_trans protocol_le_size kept)]
  simp only [if_neg long, if_neg (Nat.not_lt.mpr there), fields]

/-- A buffer that ends within the header is refused. -/
theorem read_take_short {data : Bytes} {h : Header} {limit : Nat} (good : read data = .ok h) (short : limit < size) :
    ∃ fault, read (data.take limit) = .error fault ∧
      fault.category = if limit < signature.length then .format else .corruptData := by
  obtain ⟨version, protocol, there, -⟩ := read_eq_ok.mp good
  obtain ⟨signed, -⟩ := readProtocol_eq_ok.mp protocol
  have length : (data.take limit).length = limit := by
    rw [List.length_take]
    omega
  by_cases unsigned : limit < signature.length
  · -- the signature is longer than all that is left
    have differs : (data.take limit).take signature.length ≠ signature := by
      intro same
      have sizes := congrArg List.length same
      rw [List.length_take, length] at sizes
      omega
    refine ⟨.signature signature ((data.take limit).take signature.length), ?_, ?_⟩
    · rw [read, readProtocol, if_pos differs]
      rfl
    · rw [if_pos unsigned]
      rfl
  · have whole : (data.take limit).take signature.length = signature := by
      rw [List.take_take, Nat.min_eq_left (Nat.le_of_not_lt unsigned)]
      exact signed
    rw [if_neg unsigned]
    by_cases unversioned : limit < signature.length + 4
    · have missing : ¬ signature.length + 4 ≤ (data.take limit).length := by omega
      refine ⟨.endOfData signature.length 4 ((data.take limit).length - signature.length), ?_, rfl⟩
      rw [read, readProtocol, if_neg (not_not_intro whole), Decoder.readAt, Decoder.u32_error missing]
      rfl
    · have known : readProtocol (data.take limit) = .ok version := by
        rw [readProtocol_take (Nat.le_trans protocol_le_size there) (Nat.le_of_not_lt unversioned), protocol]
      refine ⟨.corrupt (data.take limit).length (.shortHeader size (data.take limit).length), ?_, rfl⟩
      simp only [read, known, length, bind, Except.bind, if_pos short]
      rfl

end Header
end DemoTape
