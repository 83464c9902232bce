/-
# Decoders move forward

No decoder puts the cursor back, and none moves it past bytes that are not there, whether it fails or not
(`Forward`). The ways in which decoders are put together keep this property (`forward_congruence`), so it holds of a
message and of a frame. What a frame consists of is said once (`packet_eq_ok`, `frame_eq_some`). A frame takes
a byte in any case (`frame_ok`): this bounds how many frames a stream can have.
-/
import DemoTape.Proofs.Decoding.Congruence

namespace DemoTape
set_option autoImplicit false

namespace Cursor

@[simp] theorem advance_zero (c : Cursor) : c.advance 0 = c := by
  cases c
  simp [advance]

@[simp] theorem advance_advance (c : Cursor) (m n : Nat) : (c.advance m).advance n = c.advance (m + n) := by
  simp [advance, Nat.add_assoc, List.drop_drop]

@[simp] theorem size_advance (c : Cursor) (n : Nat) : (c.advance n).size = c.size := rfl

@[simp] theorem offset_advance (c : Cursor) (n : Nat) : (c.advance n).offset = c.offset + n := rfl

@[simp] theorem rest_advance (c : Cursor) (n : Nat) : (c.advance n).rest = c.rest.drop n := rfl

@[simp] theorem remaining_advance (c : Cursor) (n : Nat) : (c.advance n).remaining = c.remaining - n := by
  simp [remaining, Nat.sub_add_eq]

theorem advance_ofBytes (data : Bytes) (start n : Nat) : (ofBytes data start).advance n = ofBytes data (start + n) := by
  simp [advance, ofBytes, List.drop_drop]

end Cursor

namespace Decoder
variable {α β : Type}

/-! ## Sequences -/

theorem bind_apply (decoder : Decoder α) (next : α → Decoder β) (c : Cursor) :
    (decoder >>= next) c = match decoder c with
      | .ok a after => next a after
      | .error fault after => .error fault after := by
  simp only [bind, EStateM.bind]
  cases decoder c <;> rfl

theorem map_apply (f : α → β) (decoder : Decoder α) (c : Cursor) :
    (f <$> decoder) c = match decoder c with
      | .ok a after => .ok (f a) after
      | .error fault after => .error fault after := by
  simp only [Functor.map, EStateM.map]
  cases decoder c <;> rfl

/-- A sequence succeeds exactly when its parts do, one after the other. -/
theorem bind_eq_ok {decoder : Decoder α} {next : α → Decoder β} {c after : Cursor} {b : β} :
    (decoder >>= next) c = .ok b after ↔
      ∃ a between, decoder c = .ok a between ∧ next a between = .ok b after := by
  rw [bind_apply]
  cases decoder c with
  | ok a between =>
    simp only [EStateM.Result.ok.injEq]
    constructor
    · intro read
      exact ⟨a, between, ⟨rfl, rfl⟩, read⟩
    · rintro ⟨_, _, ⟨rfl, rfl⟩, read⟩
      exact read
  | error fault between => simp

theorem map_eq_ok {f : α → β} {decoder : Decoder α} {c after : Cursor} {b : β} :
    (f <$> decoder) c = .ok b after ↔ ∃ a, decoder c = .ok a after ∧ f a = b := by
  rw [map_apply]
  cases decoder c with
  | ok a between =>
    simp only [EStateM.Result.ok.injEq]
    constructor
    · rintro ⟨same, rfl⟩
      exact ⟨a, ⟨rfl, rfl⟩, same⟩
    · rintro ⟨_, ⟨rfl, rfl⟩, same⟩
      exact ⟨same, rfl⟩
  | error fault between => simp

/-! ## Moving forward -/

/-- Where the cursor stands afterwards, in case of failure too. -/
def stand (decoder : Decoder α) (c : Cursor) : Cursor :=
  match decoder c with
  | .ok _ after => after
  | .error _ after => after

/-- The cursor moves over some of the bytes that are left, or stays. -/
def Forward (decoder : Decoder α) : Prop := ∀ c, ∃ n ≤ c.remaining, decoder.stand c = c.advance n

theorem stand_of_ok {decoder : Decoder α} {c after : Cursor} {a : α} (read : decoder c = .ok a after) :
    decoder.stand c = after := by rw [stand, read]

theorem Forward.of_ok {decoder : Decoder α} (forward : decoder.Forward) {c after : Cursor} {a : α}
    (read : decoder c = .ok a after) : ∃ n ≤ c.remaining, after = c.advance n :=
  stand_of_ok read ▸ forward c

/-- A decoder that leaves the cursor alone. -/
theorem forward_of_still {decoder : Decoder α} (still : ∀ c, decoder.stand c = c) : decoder.Forward :=
  fun c => ⟨0, Nat.zero_le _, by rw [still, Cursor.advance_zero]⟩

theorem forward_pure (a : α) : (pure a : Decoder α).Forward := forward_of_still fun _ => rfl

theorem forward_corrupt (offset : Nat) (cause : Corruption) : (corrupt offset cause : Decoder α).Forward :=
  forward_of_still fun _ => rfl

theorem forward_offset : offset.Forward := forward_of_still fun _ => rfl

theorem forward_bytes (n : Nat) : (bytes n).Forward := by
  intro c
  by_cases fits : c.offset + n ≤ c.size
  · exact ⟨n, by unfold Cursor.remaining; omega, stand_of_ok (bytes_ok fits)⟩
  · refine ⟨0, Nat.zero_le _, ?_⟩
    rw [stand, bytes_error fits, Cursor.advance_zero]

theorem forward_skip (n : Nat) : (skip n).Forward := by
  intro c
  by_cases fits : c.offset + n ≤ c.size
  · exact ⟨n, by unfold Cursor.remaining; omega, stand_of_ok (if_pos fits)⟩
  · refine ⟨0, Nat.zero_le _, ?_⟩
    rw [stand, skip, if_neg fits, Cursor.advance_zero]

theorem forward_bind {decoder : Decoder α} {next : α → Decoder β} (first : decoder.Forward)
    (second : ∀ a, (next a).Forward) : (decoder >>= next).Forward := by
  intro c
  obtain ⟨m, within, moved⟩ := first c
  unfold stand at moved ⊢
  rw [bind_apply]
  cases read : decoder c with
  | ok a between =>
    rw [read] at moved
    dsimp only at moved ⊢
    obtain ⟨n, further, there⟩ := second a between
    rw [moved, Cursor.remaining_advance] at further
    exact ⟨m + n, by omega, by rw [← Cursor.advance_advance, ← moved]; exact there⟩
  | error fault between =>
    rw [read] at moved
    exact ⟨m, within, moved⟩

theorem forward_map {decoder : Decoder α} (f : α → β) (forward : decoder.Forward) : (f <$> decoder).Forward := by
  rw [← bind_pure_comp]
  exact forward_bind forward fun a => forward_pure (f a)

theorem forward_ite {left right : Decoder α} {p : Prop} [Decidable p] (yes : left.Forward)
    (no : right.Forward) : (if p then left else right).Forward := by
  split
  · exact yes
  · exact no

theorem forward_atomically {decoder : Decoder α} (forward : decoder.Forward) : decoder.atomically.Forward := by
  intro c
  cases read : decoder c with
  | ok a after =>
    have same : decoder.atomically c = .ok a after := by rw [atomically, read]
    rw [stand_of_ok same]
    exact forward.of_ok read
  | error fault after =>
    refine ⟨0, Nat.zero_le _, ?_⟩
    rw [stand, atomically, read, Cursor.advance_zero]

/-! ## The decoders of a recording -/

theorem forward_congruence : Congruence (fun _ decoder _ => decoder.Forward) fun _ _ => True where
  pure := forward_pure
  corrupt _ _ := forward_corrupt _ _
  bytes := forward_bytes
  skip := forward_skip
  bind first second := forward_bind first second
  atomically whole := forward_atomically whole
  noted _ second := forward_bind forward_offset fun place =>
    forward_bind (forward_bytes _) fun read => second place place read trivial

theorem forward_message (start : Nat) (kind : UInt8) : (message start kind).Forward :=
  forward_congruence.message start start trivial kind

/-! ## Frames -/

theorem bytes_eq_ok {n : Nat} {c after : Cursor} {bs : Bytes} :
    bytes n c = .ok bs after ↔ c.offset + n ≤ c.size ∧ bs = c.rest.take n ∧ after = c.advance n := by
  by_cases fits : c.offset + n ≤ c.size
  · rw [bytes_ok fits]
    simp [fits, eq_comm]
  · rw [bytes_error fits]
    simp [fits]

/-- A byte is taken where there is one. -/
theorem u8_moves {c after : Cursor} {byte : UInt8} (read : u8 c = .ok byte after) :
    1 ≤ c.remaining ∧ after = c.advance 1 := by
  obtain ⟨word, read, -⟩ := map_eq_ok.mp read
  obtain ⟨taken, read, -⟩ := map_eq_ok.mp read
  obtain ⟨fits, -, rfl⟩ := bytes_eq_ok.mp read
  exact ⟨by unfold Cursor.remaining; omega, rfl⟩

/-- All that a packet consists of: a tick after the last one, and messages. -/
theorem packet_eq_ok {last : Option Tick} {start : Nat} {c after : Cursor} {f : Frame} :
    packet last start c = .ok f after ↔
      f.offset = start ∧ (∀ l ∈ last, l < f.tick) ∧ ∃ between, u32 c = .ok f.tick between ∧
        messages (between.remaining + 1) between = .ok f.messages after := by
  have body (tick : Tick) (between : Cursor) : (do
      let left ← remaining
      let messages ← messages (left + 1)
      pure { tick, messages, offset := start } : Decoder Frame) between = .ok f after ↔
      f.offset = start ∧ f.tick = tick ∧ messages (between.remaining + 1) between = .ok f.messages after := by
    constructor
    · intro read
      obtain ⟨left, here, got, read⟩ := bind_eq_ok.mp read
      cases got
      obtain ⟨ms, there, got, read⟩ := bind_eq_ok.mp read
      cases read
      exact ⟨rfl, rfl, got⟩
    · rintro ⟨rfl, rfl, got⟩
      exact bind_eq_ok.mpr ⟨_, _, rfl, bind_eq_ok.mpr ⟨_, _, got, rfl⟩⟩
  constructor
  · intro read
    unfold packet at read
    obtain ⟨tickStart, here, got, read⟩ := bind_eq_ok.mp read
    cases got
    obtain ⟨tick, between, got, read⟩ := bind_eq_ok.mp read
    cases last with
    | none =>
      obtain ⟨placed, rfl, rest⟩ := (body _ _).mp read
      exact ⟨placed, nofun, between, got, rest⟩
    | some l =>
      dsimp only at read
      split at read
      · obtain ⟨_, _, failed, -⟩ := bind_eq_ok.mp read
        cases failed
      · rename_i later
        obtain ⟨placed, rfl, rest⟩ := (body _ _).mp read
        refine ⟨placed, ?_, between, got, rest⟩
        rintro _ ⟨⟩
        exact UInt32.not_le.mp later
  · rintro ⟨placed, ascends, between, got, read⟩
    have rest := (body f.tick between).mpr ⟨placed, rfl, read⟩
    refine bind_eq_ok.mpr ⟨_, _, rfl, bind_eq_ok.mpr ⟨_, _, got, ?_⟩⟩
    cases last with
    | none => exact rest
    | some l =>
      dsimp only
      rw [if_neg (UInt32.not_le.mpr (ascends l rfl))]
      exact rest

/-- A frame that is read is a packet behind its command. -/
theorem frame_eq_some {last : Option Tick} {c after : Cursor} {f : Frame} :
    frame last c = .ok (some f) after ↔
      c.atEnd = false ∧ ∃ between, u8 c = .ok Frame.packetCommand between ∧
        packet last c.offset between = .ok f after := by
  constructor
  · intro read
    unfold frame at read
    obtain ⟨start, here, got, read⟩ := bind_eq_ok.mp read
    cases got
    obtain ⟨ended, here, got, read⟩ := bind_eq_ok.mp read
    cases got
    split at read
    · cases read
    rename_i within
    obtain ⟨command, between, got, read⟩ := bind_eq_ok.mp read
    split at read
    · cases read
    split at read
    · rename_i packet
      obtain ⟨g, read, same⟩ := map_eq_ok.mp read
      cases same
      exact ⟨Bool.eq_false_iff.mpr within, between, packet ▸ got, read⟩
    · cases read
  · rintro ⟨within, between, got, read⟩
    refine bind_eq_ok.mpr ⟨_, _, rfl, bind_eq_ok.mpr ⟨_, _, rfl, ?_⟩⟩
    rw [within]
    exact bind_eq_ok.mpr ⟨_, _, got, map_eq_ok.mpr ⟨f, read, rfl⟩⟩

/-- The frames end at the stop command. -/
theorem frame_eq_none {last : Option Tick} {c after : Cursor} (read : frame last c = .ok none after) :
    u8 c = .ok Frame.stopCommand after := by
  unfold frame at read
  obtain ⟨start, here, got, read⟩ := bind_eq_ok.mp read
  cases got
  obtain ⟨ended, here, got, read⟩ := bind_eq_ok.mp read
  cases got
  split at read
  · cases read
  obtain ⟨command, between, got, read⟩ := bind_eq_ok.mp read
  split at read
  · rename_i stop
    cases read
    exact stop ▸ got
  split at read
  · obtain ⟨g, _, same⟩ := map_eq_ok.mp read
    cases same
  · cases read

theorem forward_packet (last : Option Tick) (start : Nat) : (packet last start).Forward :=
  forward_congruence.packet (forward_of_still fun _ => rfl) last start

theorem forward_frame (last : Option Tick) : (frame last).Forward := by
  refine forward_bind forward_offset fun start => forward_bind (forward_of_still fun _ => rfl) fun ended => ?_
  refine forward_ite (forward_corrupt _ _) (forward_bind forward_congruence.u8 fun command => ?_)
  exact forward_ite (forward_pure _) (forward_ite (forward_map _ (forward_packet _ _)) (forward_corrupt _ _))

/-- A packet has a tick after the last one. -/
theorem packet_ok {last : Option Tick} {start : Nat} {c after : Cursor} {f : Frame}
    (read : packet last start c = .ok f after) :
    f.offset = start ∧ (∀ l ∈ last, l < f.tick) ∧ ∃ n ≤ c.remaining, after = c.advance n := by
  obtain ⟨placed, ascends, -⟩ := packet_eq_ok.mp read
  exact ⟨placed, ascends, (forward_packet last start).of_ok read⟩

/-- What is read as a frame after another one would be read as the first one too. -/
theorem frame_first {last : Option Tick} {c after : Cursor} {f : Frame} (read : frame last c = .ok (some f) after) :
    frame none c = .ok (some f) after := by
  obtain ⟨within, between, command, body⟩ := frame_eq_some.mp read
  obtain ⟨placed, -, rest⟩ := packet_eq_ok.mp body
  exact frame_eq_some.mpr ⟨within, between, command, packet_eq_ok.mpr ⟨placed, nofun, rest⟩⟩

/-- A frame begins where the cursor stands, has a tick after the last one, and takes some bytes. -/
theorem frame_ok {last : Option Tick} {c after : Cursor} {f : Frame}
    (read : frame last c = .ok (some f) after) :
    f.offset = c.offset ∧ (∀ l ∈ last, l < f.tick) ∧ ∃ n, 0 < n ∧ n ≤ c.remaining ∧ after = c.advance n := by
  obtain ⟨-, between, got, read⟩ := frame_eq_some.mp read
  obtain ⟨left, rfl⟩ := u8_moves got
  obtain ⟨placed, ascends, n, within, rfl⟩ := packet_ok read
  rw [Cursor.remaining_advance] at within
  exact ⟨placed, ascends, 1 + n, by omega, by omega, Cursor.advance_advance _ _ _⟩

end Decoder
end DemoTape
