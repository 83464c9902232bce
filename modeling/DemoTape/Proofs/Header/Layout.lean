/-
# The layout of a header

Each field of a header has its offset, and its bytes alone say what is read: `laidOut` takes the fields from these
offsets. `outcome` is what becomes of any buffer. The checks overlap, so the first one that does not hold decides: the
signature, the end of the data in front of the protocol version, the version, and only then the size.

A stored header may fill its names, with no zero behind them, or have anything behind the first zero.
However it is stored, its content is what is laid out (`laidOut_encode`), and all that fits can be stored
(`exists_header`). `read_laidOut` says which buffers are read, and as what.
-/
import DemoTape.Proofs.Decoding.Slices
import DemoTape.Proofs.Header.Extent
import DemoTape.Proofs.Text.Zero

namespace DemoTape
set_option autoImplicit false

-- powers are those of the core library, whatever else is loaded
attribute [local instance (high)] instPowNat

/-! ## Fields -/

namespace Header

def numberAt (data : Bytes) (offset : Nat) : UInt32 := UInt32.ofNat (data.slice offset 4).toNat

/-- The bytes of a name, which are those in front of the first zero of its field. -/
def nameBytes (data : Bytes) (offset : Nat) : Bytes := (data.slice offset nameSize).takeWhile (· ≠ 0)

def nameAt (data : Bytes) (offset : Nat) : String := Utf8.decodeLossy (nameBytes data offset)

/-- The header whose fields stand at their offsets. -/
def laidOut (data : Bytes) : Header where
  demoProtocol := numberAt data 0x008
  networkProtocol := numberAt data 0x00C
  serverName := nameAt data 0x010
  clientName := nameAt data 0x114
  mapName := nameAt data 0x218
  gameDirectory := nameAt data 0x31C
  playbackTime := Binary.ofWord .single (data.slice 0x420 4).toNat
  tickCount := numberAt data 0x424
  frameCount := numberAt data 0x428

/-- The names of a header with the offsets of their fields. -/
def names (h : Header) : List (Nat × String) :=
  [(0x010, h.serverName), (0x114, h.clientName), (0x218, h.mapName), (0x31C, h.gameDirectory)]

/-- What becomes of a buffer. -/
def outcome (data : Bytes) : Except Fault Header :=
  if data.length < 8 ∨ ¬ signature <+: data then .error (.signature signature (data.take 8))
  else if data.length < 12 then .error (.endOfData 8 4 (data.length - 8))
  else if ¬ (numberAt data 8 = 3 ∨ numberAt data 8 = 4) then .error (.protocol (numberAt data 8) 3 4)
  else if data.length < 1068 then .error (.corrupt data.length (.shortHeader 1068 data.length))
  else .ok (laidOut data)

/-! ## Any buffer -/

/-- No field fails to be read. -/
theorem readAt_fields {data : Bytes} (long : 1068 ≤ data.length) (version : UInt32) :
    (fields version).readAt data 12 = .ok { laidOut data with demoProtocol := version } := by
  have nameSize : nameSize = 260 := rfl
  unfold fields
  rw [Decoder.fixed_u32.readAt_bind _ (by omega), (Decoder.fixed_fixedText _).readAt_bind _ (by omega),
    (Decoder.fixed_fixedText _).readAt_bind _ (by omega), (Decoder.fixed_fixedText _).readAt_bind _ (by omega),
    (Decoder.fixed_fixedText _).readAt_bind _ (by omega), Decoder.fixed_f32.readAt_bind _ (by omega),
    Decoder.fixed_u32.readAt_bind _ (by omega), Decoder.fixed_u32.readAt_bind _ (by omega)]
  rfl

theorem outside_iff {version : UInt32} :
    version < lowestProtocol ∨ highestProtocol < version ↔ ¬ (version = 3 ∨ version = 4) := by
  have three : version = 3 ↔ version.toNat = 3 := UInt32.toNat_inj.symm
  have four : version = 4 ↔ version.toNat = 4 := UInt32.toNat_inj.symm
  have low : version < lowestProtocol ↔ version.toNat < 3 := UInt32.lt_iff_toNat_lt
  have high : highestProtocol < version ↔ 4 < version.toNat := UInt32.lt_iff_toNat_lt
  rw [three, four, low, high]
  omega

theorem unsigned_iff {data : Bytes} : data.take 8 ≠ signature ↔ data.length < 8 ∨ ¬ signature <+: data := by
  have prefix_ : signature <+: data ↔ data.take 8 = signature := List.prefix_iff_eq_take.trans eq_comm
  rw [prefix_]
  refine ⟨.inr, fun unsigned same => unsigned.elim (fun short => ?_) (· same)⟩
  have length : (data.take 8).length = 8 := congrArg List.length same
  rw [List.length_take] at length
  omega

/-- The checks up to the version, in their order. -/
theorem readProtocol_eq (data : Bytes) : readProtocol data =
    if data.length < 8 ∨ ¬ signature <+: data then .error (.signature signature (data.take 8))
    else if data.length < 12 then .error (.endOfData 8 4 (data.length - 8))
    else if ¬ (numberAt data 8 = 3 ∨ numberAt data 8 = 4) then .error (.protocol (numberAt data 8) 3 4)
    else .ok (numberAt data 8) := by
  -- the same checks without the scaffold of the monad
  have checked : readProtocol data = if data.take 8 ≠ signature then .error (.signature signature (data.take 8))
      else Decoder.u32.readAt data 8 >>= fun version =>
        if version < lowestProtocol ∨ highestProtocol < version then .error (.protocol version 3 4)
        else .ok version := by
    unfold readProtocol
    by_cases differs : data.take 8 ≠ signature
    · rw [if_pos differs]
      exact if_pos differs
    · rw [if_neg differs]
      refine (if_neg differs).trans (congrArg (Decoder.u32.readAt data 8 >>= ·) (funext fun version => ?_))
      dsimp only
      split <;> rfl
  rw [checked]
  simp only [unsigned_iff]
  refine ite_congr rfl (fun _ => rfl) fun _ => ?_
  by_cases short : data.length < 12
  · rw [if_pos short, Decoder.fixed_u32.readAt_error (Nat.not_le.mpr short)]
    rfl
  · rw [if_neg short, Decoder.fixed_u32.readAt_ok (Nat.le_of_not_lt short)]
    exact ite_congr (propext outside_iff) (fun _ => rfl) fun _ => rfl

theorem read_eq_outcome (data : Bytes) : read data = outcome data := by
  have checked : read data = readProtocol data >>= fun version =>
      if data.length < size then .error (.corrupt data.length (.shortHeader 1068 data.length))
      else (fields version).readAt data 12 := by
    refine congrArg (readProtocol data >>= ·) (funext fun version => ?_)
    dsimp only
    split <;> rfl
  rw [checked, readProtocol_eq, outcome]
  split
  · rfl
  split
  · rfl
  split
  · rfl
  by_cases short : data.length < 1068
  · rw [if_pos short]
    exact if_pos short
  · rw [if_neg short]
    exact (if_neg short).trans (readAt_fields (Nat.le_of_not_lt short) _)

/-- What is read is what is laid out. -/
theorem laidOut_of_read {data : Bytes} {h : Header} (good : read data = .ok h) : h = laidOut data := by
  rw [read_eq_outcome] at good
  unfold outcome at good
  iterate 4 (split at good; · cases good)
  exact (Except.ok.inj good).symm

/-- Buffers with the same bytes of a header are read alike. -/
theorem read_congr {data other : Bytes} (there : size ≤ data.length) (also : size ≤ other.length)
    (same : other.take size = data.take size) : read other = read data := by
  rw [← read_take there (Nat.le_refl size), ← same, read_take also (Nat.le_refl size)]

/-! ## Names -/

theorem nameAt_of_mem {data : Bytes} : ∀ name ∈ (laidOut data).names, name.2 = nameAt data name.1 := by
  simp [names, laidOut]

theorem zero_not_mem_nameAt (data : Bytes) (offset : Nat) : '\x00' ∉ (nameAt data offset).toList := by
  refine Utf8.zero_not_mem_decodeLossy fun zero => ?_
  have nonzero := List.all_eq_true.mp List.all_takeWhile 0 zero
  simp at nonzero

/-- A valid name is nothing but its bytes. -/
theorem encode_nameAt {data : Bytes} {offset : Nat} (valid : ∃ s, Utf8.encode s = nameBytes data offset) :
    Utf8.encode (nameAt data offset) = nameBytes data offset := by
  obtain ⟨s, same⟩ := valid
  rw [nameAt, ← same, Utf8.decodeLossy_encode]

end Header

/-! ## Stored headers -/

namespace Wire

/-- A name, with what follows it in its field: nothing at all, or a zero and any bytes. -/
structure Name where
  content : String
  rest : Bytes
  free : '\x00' ∉ content.toList
  whole : (Utf8.encode content).length + rest.length = Header.nameSize
  ended : ∀ b ∈ rest.head?, b = 0

namespace Name

def encode (n : Name) : Bytes := Utf8.encode n.content ++ n.rest

theorem length_encode (n : Name) : n.encode.length = 260 := by
  rw [encode, List.length_append, n.whole]
  rfl

theorem takeWhile_encode (n : Name) : n.encode.takeWhile (· ≠ 0) = Utf8.encode n.content := by
  have nonzero : ∀ b ∈ Utf8.encode n.content, decide (b ≠ 0) = true := by
    intro b member
    refine decide_eq_true fun zero => n.free (Utf8.zero_mem_encode.mp ?_)
    rwa [← zero]
  have nothing : n.rest.takeWhile (· ≠ 0) = [] := by
    have ended := n.ended
    cases rest : n.rest with
    | nil => rfl
    | cons b more =>
      rw [rest] at ended
      simp [ended b rfl]
  rw [encode, List.takeWhile_append_of_pos nonzero, nothing, List.append_nil]

end Name

/-- The fields of a header as they are stored. -/
structure Header where
  protocol : UInt32
  network : UInt32
  server : Name
  client : Name
  map : Name
  directory : Name
  time : Binary32
  ticks : UInt32
  frames : UInt32
  known : protocol = 3 ∨ protocol = 4

namespace Header

def encode (h : Header) : Bytes :=
  DemoTape.Header.signature ++ (Bytes.ofNat 4 h.protocol.toNat ++ (Bytes.ofNat 4 h.network.toNat ++
    (h.server.encode ++ (h.client.encode ++ (h.map.encode ++ (h.directory.encode ++
      (Bytes.ofNat 4 h.time.toWord ++ (Bytes.ofNat 4 h.ticks.toNat ++ Bytes.ofNat 4 h.frames.toNat))))))))

def content (h : Header) : DemoTape.Header where
  demoProtocol := h.protocol
  networkProtocol := h.network
  serverName := h.server.content
  clientName := h.client.content
  mapName := h.map.content
  gameDirectory := h.directory.content
  playbackTime := h.time
  tickCount := h.ticks
  frameCount := h.frames

theorem length_signature : DemoTape.Header.signature.length = 8 := rfl

theorem length_encode (h : Header) : h.encode.length = DemoTape.Header.size := by
  simp only [encode, List.length_append, length_signature, Bytes.length_ofNat, Name.length_encode]
  rfl

section Slices
variable (back : Bytes) (offset n : Nat)

theorem slice_signature :
    Bytes.slice (DemoTape.Header.signature ++ back) (offset + 8) n = back.slice offset n :=
  Bytes.slice_append_right rfl offset n

theorem slice_number (m : Nat) : Bytes.slice (Bytes.ofNat 4 m ++ back) (offset + 4) n = back.slice offset n :=
  Bytes.slice_append_right (Bytes.length_ofNat 4 m) offset n

theorem slice_name (name : Name) : Bytes.slice (name.encode ++ back) (offset + 260) n = back.slice offset n :=
  Bytes.slice_append_right name.length_encode offset n

theorem slice_number_zero (m : Nat) : Bytes.slice (Bytes.ofNat 4 m ++ back) 0 4 = Bytes.ofNat 4 m :=
  Bytes.slice_append_left (Bytes.length_ofNat 4 m)

theorem slice_name_zero (name : Name) : Bytes.slice (name.encode ++ back) 0 260 = name.encode :=
  Bytes.slice_append_left name.length_encode

end Slices

/-- What is laid out is the content, whatever stands behind it. -/
theorem laidOut_encode (h : Header) (more : Bytes) : DemoTape.Header.laidOut (h.encode ++ more) = h.content := by
  have number (v : UInt32) : UInt32.ofNat (Bytes.ofNat 4 v.toNat).toNat = v := by
    rw [Bytes.toNat_ofNat v.toNat_lt, UInt32.ofNat_toNat]
  have time : Binary.ofWord .single (Bytes.ofNat 4 h.time.toWord).toNat = h.time := by
    rw [Bytes.toNat_ofNat h.time.toWord_lt, Binary.ofWord_toWord]
  have nameSize : DemoTape.Header.nameSize = 260 := rfl
  simp only [DemoTape.Header.laidOut, DemoTape.Header.numberAt, DemoTape.Header.nameAt, DemoTape.Header.nameBytes,
    encode, content, nameSize, List.append_assoc, slice_signature, slice_number, slice_name, slice_number_zero,
    slice_name_zero, number, time, Name.takeWhile_encode, Utf8.decodeLossy_encode]

theorem read_encode (h : Header) (more : Bytes) : DemoTape.Header.read (h.encode ++ more) = .ok h.content := by
  have laid := laidOut_encode h more
  have version : DemoTape.Header.numberAt (h.encode ++ more) 8 = h.protocol :=
    congrArg DemoTape.Header.demoProtocol laid
  have signed : DemoTape.Header.signature <+: h.encode ++ more :=
    (List.prefix_append _ _).trans (List.prefix_append _ _)
  have long : 1068 ≤ (h.encode ++ more).length := by
    rw [List.length_append, h.length_encode]
    exact Nat.le_add_right _ _
  rw [DemoTape.Header.read_eq_outcome, DemoTape.Header.outcome,
    if_neg (fun unsigned => unsigned.elim (by omega) (· signed)), if_neg (by omega),
    if_neg (by rw [version]; exact not_not_intro h.known), if_neg (by omega), laid]

end Header

/-! ## What can be stored -/

theorem exists_name {s : String}
    (fits : '\x00' ∉ s.toList ∧ (Utf8.encode s).length ≤ DemoTape.Header.nameSize) : ∃ n : Name, n.content = s := by
  obtain ⟨free, short⟩ := fits
  refine ⟨⟨s, List.replicate (DemoTape.Header.nameSize - (Utf8.encode s).length) 0, free, ?_, ?_⟩, rfl⟩
  · rw [List.length_replicate]
    exact Nat.add_sub_of_le short
  · intro b first
    exact List.eq_of_mem_replicate (List.mem_of_mem_head? first)

theorem exists_header {h : DemoTape.Header} (known : h.demoProtocol = 3 ∨ h.demoProtocol = 4)
    (fit : ∀ name ∈ h.names, '\x00' ∉ name.2.toList ∧ (Utf8.encode name.2).length ≤ DemoTape.Header.nameSize) :
    ∃ stored : Header, stored.content = h := by
  simp only [DemoTape.Header.names, List.forall_mem_cons] at fit
  obtain ⟨server, client, map, directory, -⟩ := fit
  obtain ⟨server, serverName⟩ := exists_name server
  obtain ⟨client, clientName⟩ := exists_name client
  obtain ⟨map, mapName⟩ := exists_name map
  obtain ⟨directory, gameDirectory⟩ := exists_name directory
  refine ⟨⟨h.demoProtocol, h.networkProtocol, server, client, map, directory, h.playbackTime, h.tickCount,
    h.frameCount, known⟩, ?_⟩
  simp only [Header.content, serverName, clientName, mapName, gameDirectory]

end Wire

/-! ## All headers -/

/-- **What becomes of a buffer is decided by the first check that does not hold, and a header by its first 1068 bytes;
every header that fits is read, however it is stored.** -/
theorem Header.read_laidOut (data : Bytes) :
    read data = outcome data ∧
    (size ≤ data.length →
      ∀ other : Bytes, size ≤ other.length → other.take size = data.take size → read other = read data) ∧
    (∀ h, read data = .ok h → ∀ name ∈ h.names, '\x00' ∉ name.2.toList ∧
      ((∃ s, Utf8.encode s = nameBytes data name.1) → Utf8.encode name.2 = nameBytes data name.1)) ∧
    (∀ stored : Wire.Header, stored.encode.length = size ∧ read (stored.encode ++ data) = .ok stored.content) ∧
    ∀ h : Header, (h.demoProtocol = 3 ∨ h.demoProtocol = 4) →
      (∀ name ∈ h.names, '\x00' ∉ name.2.toList ∧ (Utf8.encode name.2).length ≤ nameSize) →
        ∃ stored : Wire.Header, stored.content = h := by
  refine ⟨read_eq_outcome data, fun there other also same => read_congr there also same, ?_,
    fun stored => ⟨stored.length_encode, stored.read_encode data⟩, fun h known fit => Wire.exists_header known fit⟩
  intro h good name member
  obtain rfl := laidOut_of_read good
  rw [nameAt_of_mem name member]
  exact ⟨zero_not_mem_nameAt data name.1, encode_nameAt⟩

namespace Wire

/-- A name with a zero behind it and then nothing but some other byte. -/
def Name.followed (s : String) (other : UInt8) (free : '\x00' ∉ s.toList)
    (short : (Utf8.encode s).length < DemoTape.Header.nameSize) : Name where
  content := s
  rest := 0 :: List.replicate (259 - (Utf8.encode s).length) other
  free
  whole := by
    have nameSize : DemoTape.Header.nameSize = 260 := rfl
    rw [List.length_cons, List.length_replicate]
    omega
  ended := by simp

/-- A name of one character, as often as it fills the field. -/
def Name.full (c : Char) (n : Nat) (free : c ≠ '\x00')
    (whole : n * (String.utf8EncodeChar c).length = DemoTape.Header.nameSize) : Name where
  content := String.ofList (List.replicate n c)
  rest := []
  free := by
    rw [String.toList_ofList, List.mem_replicate]
    exact fun zero => free zero.2.symm
  whole := by
    rw [Utf8.encode, String.toList_ofList, List.length_flatMap, List.map_replicate, List.sum_replicate_nat, whole]
    rfl
  ended := by simp

/-- A header with one name that fills its field and others that have something behind their zero. -/
def Header.untidy : Header where
  protocol := 4
  network := 24
  server := .full 'é' 130 (by decide) (by decide)
  client := .followed "" 0xFF (by decide) (by decide)
  map := .followed "cp" 0x41 (by decide) (by decide)
  directory := .followed "tf" 0x00 (by decide) (by decide)
  time := .ofWord .single 0x42B40000
  ticks := 6000
  frames := 0xFFFFFFFF
  known := .inr rfl

end Wire

theorem Header.read_laidOut_untidy : read (Wire.Header.untidy.encode ++ [0x02]) = .ok Wire.Header.untidy.content ∧
    Wire.Header.untidy.content.clientName = "" :=
  ⟨((read_laidOut [0x02]).2.2.2.1 .untidy).2, rfl⟩

end DemoTape
