/-
# Frames have one spelling

What a stream goes over is the encoding of what it yields (`encode_of_yields`), whatever the buffer is: every
tag, truth value, count, text and number that is accepted is stored in one way only, and no byte is passed over
or read twice. The encoding is that of the frame as it is stored, with the skipped payloads and the bits of NaN
that are in the buffer; `Frame.masked` says that nothing else was left open.
-/
import DemoTape.Proofs.Decoding.Takes
import DemoTape.Proofs.Frames.Transcript
import DemoTape.Proofs.Wire.Masked

namespace DemoTape
namespace Wire
set_option autoImplicit false

/-! ## What decoders take is stored -/

open Decoder

theorem takes_wireText : text.Takes (Spelled Text.encode Text.content) := by
  refine takes_text.imp ?_
  rintro _ s ⟨rfl, short⟩
  exact ⟨⟨s, short⟩, rfl, rfl⟩

theorem takes_key : propertyKey.Takes (Spelled Key.encode Key.content) := by
  refine takes_offset fun start => takes_bind takes_u8 ?_
  rintro _ tag rfl
  split
  · refine takes_map (takes_wireText.imp ?_)
    rintro _ _ ⟨t, rfl, rfl⟩
    exact ⟨.name t, rfl, rfl⟩
  · refine takes_map (takes_u16.imp ?_)
    rintro _ index rfl
    exact ⟨.slot index, rfl, rfl⟩
  · exact takes_corrupt _ _

theorem takes_boolean : boolean.Takes fun taken b => taken = [if b then 1 else 0] := by
  refine takes_offset fun start => takes_bind takes_u8 ?_
  rintro _ byte rfl
  split
  · exact takes_pure rfl
  · exact takes_pure rfl
  · exact takes_corrupt _ _

theorem takes_vec3 : vec3.Takes fun taken v =>
    taken = Bytes.ofNat 4 v.x.toWord ++ (Bytes.ofNat 4 v.y.toWord ++ Bytes.ofNat 4 v.z.toWord) := by
  refine takes_bind takes_f32 ?_
  rintro _ x rfl
  refine takes_bind takes_f32 ?_
  rintro _ y rfl
  refine takes_bind takes_f32 ?_
  rintro _ z rfl
  exact takes_pure (by rw [List.append_nil])

theorem takes_value : value.Takes (Spelled Value.encode Value.content) := by
  refine takes_offset fun start => takes_bind takes_u8 ?_
  rintro _ tag rfl
  split
  · refine takes_map (takes_i32.imp ?_)
    rintro _ i rfl
    exact ⟨.integer i, rfl, rfl⟩
  · refine takes_map (takes_f32.imp ?_)
    rintro _ x rfl
    exact ⟨.float x, rfl, rfl⟩
  · refine takes_map (takes_wireText.imp ?_)
    rintro _ _ ⟨t, rfl, rfl⟩
    exact ⟨.text t, rfl, rfl⟩
  · refine takes_map (takes_boolean.imp ?_)
    rintro _ b rfl
    exact ⟨.boolean b, rfl, rfl⟩
  · refine takes_map (takes_vec3.imp ?_)
    rintro _ v rfl
    exact ⟨.vector v, rfl, rfl⟩
  · exact takes_corrupt _ _

theorem takes_assignment : assignment.Takes (Spelled Assignment.encode Assignment.content) := by
  refine takes_bind takes_key ?_
  rintro _ _ ⟨key, rfl, rfl⟩
  refine takes_bind takes_value ?_
  rintro _ _ ⟨value, rfl, rfl⟩
  exact takes_pure ⟨⟨key, value⟩, rfl, by rw [Assignment.encode, List.append_nil]⟩

theorem takes_tableEntry : tableEntry.Takes (Spelled TableEntry.encode TableEntry.content) := by
  refine takes_bind takes_u16 ?_
  rintro _ index rfl
  refine takes_bind takes_wireText ?_
  rintro _ _ ⟨text, rfl, rfl⟩
  exact takes_pure ⟨⟨index, text⟩, rfl, by rw [TableEntry.encode, List.append_nil]⟩

/-- What stands behind the kind of a message is a body of this kind. -/
theorem takes_message (start : Nat) (kind : UInt8) : (message start kind).Takes fun taken m =>
    ∃ stored : Message, stored.content = m ∧ stored.kind = kind ∧ stored.body = taken := by
  unfold message
  refine takes_ite ?baseline fun _ => takes_ite ?delta fun _ => takes_ite ?remove fun _ =>
    takes_ite ?table fun _ => takes_ite ?command fun _ => takes_ite ?other fun _ => takes_corrupt _ _
  case baseline =>
    rintro rfl
    refine takes_bind takes_u32 ?_
    rintro _ entity rfl
    refine takes_bind takes_wireText ?_
    rintro _ _ ⟨cls, rfl, rfl⟩
    refine takes_bind (takes_counted takes_assignment) ?_
    rintro _ _ ⟨items, few, rfl, rfl⟩
    exact takes_pure ⟨.baseline entity cls ⟨items, few⟩, rfl, rfl, by simp [Message.body, Counted.encode]⟩
  case delta =>
    rintro rfl
    refine takes_bind takes_u32 ?_
    rintro _ entity rfl
    refine takes_bind (takes_counted takes_assignment) ?_
    rintro _ _ ⟨items, few, rfl, rfl⟩
    exact takes_pure ⟨.delta entity ⟨items, few⟩, rfl, rfl, by simp [Message.body, Counted.encode]⟩
  case remove =>
    rintro rfl
    refine takes_map (takes_u32.imp ?_)
    rintro _ entity rfl
    exact ⟨.remove entity, rfl, rfl, rfl⟩
  case table =>
    rintro rfl
    refine takes_bind takes_wireText ?_
    rintro _ _ ⟨name, rfl, rfl⟩
    refine takes_bind (takes_counted takes_tableEntry) ?_
    rintro _ _ ⟨items, few, rfl, rfl⟩
    exact takes_pure ⟨.table name ⟨items, few⟩, rfl, rfl, by simp [Message.body, Counted.encode]⟩
  case command =>
    rintro rfl
    refine takes_bind takes_u32 ?_
    rintro _ sequence rfl
    refine takes_bind takes_u16 ?_
    rintro _ size rfl
    refine takes_bind (takes_bytes size.toNat) ?_
    rintro _ input ⟨rfl, length⟩
    have few : input.length ≤ 65535 := length ▸ Nat.le_of_lt_succ size.toNat_lt
    exact takes_pure ⟨.command sequence ⟨input, few⟩, rfl, rfl, by simp [Message.body, Counted.encode, length]⟩
  case other =>
    intro skipped
    refine takes_bind takes_u32 ?_
    rintro _ length rfl
    refine takes_bind (takes_skip length.toNat) ?_
    intro payload _ size
    refine takes_pure ⟨.other kind payload skipped (size ▸ length.toNat_lt), ?_, rfl, ?_⟩
    · show DemoTape.Message.other kind (UInt32.ofNat payload.length) = _
      rw [size, UInt32.ofNat_toNat]
    · simp [Message.body, size]

/-- The messages of a frame, where the rounds are enough for the bytes. -/
theorem messages_over {rounds : Nat} {c after : Cursor} {ms : List DemoTape.Message}
    (enough : c.remaining < rounds) (read : messages rounds c = .ok ms after) :
    ∃ stored : List Message, stored.map Message.content = ms ∧
      c.Over (stored.flatMap Message.encode ++ [0x00]) after := by
  induction rounds generalizing c ms with
  | zero => cases enough
  | succ rounds ih =>
    unfold messages at read
    obtain ⟨start, here, got, read⟩ := bind_eq_ok.mp read
    cases got
    obtain ⟨kind, between, got, read⟩ := bind_eq_ok.mp read
    obtain ⟨_, first, rfl⟩ := takes_u8 got
    obtain ⟨left, moved⟩ := u8_moves got
    split at read
    · rename_i ended
      cases read
      rw [ended] at first
      exact ⟨[], rfl, first⟩
    · obtain ⟨m, behind, one, read⟩ := bind_eq_ok.mp read
      obtain ⟨more, there, others, read⟩ := bind_eq_ok.mp read
      cases read
      obtain ⟨n, within, further⟩ := (forward_message c.offset kind).of_ok one
      have fewer : behind.remaining < rounds := by
        rw [further, moved, Cursor.remaining_advance, Cursor.remaining_advance]
        omega
      obtain ⟨_, second, stored, rfl, rfl, rfl⟩ := takes_message c.offset kind one
      obtain ⟨later, rfl, third⟩ := ih fewer others
      refine ⟨stored :: later, rfl, ?_⟩
      have passed := first.trans (second.trans third)
      simpa [Message.encode] using passed

/-- What is read as a frame is stored where the cursor stood. -/
theorem frame_over {last : Option Tick} {c after : Cursor} {f : DemoTape.Frame}
    (read : frame last c = .ok (some f) after) :
    f.offset = c.offset ∧ ∃ stored : Frame, stored.content = (f.tick, f.messages) ∧ c.Over stored.encode after := by
  obtain ⟨-, between, got, read⟩ := frame_eq_some.mp read
  obtain ⟨_, first, rfl⟩ := takes_u8 got
  obtain ⟨placed, -, behind, got, read⟩ := packet_eq_ok.mp read
  obtain ⟨_, second, rfl⟩ := takes_u32 got
  obtain ⟨stored, contents, third⟩ := messages_over (Nat.lt_succ_self _) read
  refine ⟨placed, ⟨f.tick, stored⟩, ?_, ?_⟩
  · rw [Frame.content, contents]
  · have passed := first.trans (second.trans third)
    simpa [Frame.encode, Frame.packetCommand] using passed

theorem stop_over {last : Option Tick} {c after : Cursor} (read : frame last c = .ok none after) :
    c.Over [DemoTape.Frame.stopCommand] after := by
  obtain ⟨_, passed, rfl⟩ := takes_u8 (frame_eq_none read)
  exact passed

end Wire

/-! ## Where a stream stands -/

namespace FrameStream

theorem cursor_next (s : FrameStream) : ∃ n, s.next.2.cursor = s.cursor.advance n := by
  obtain ⟨n, -, moved⟩ := Decoder.forward_frame s.lastTick s.cursor
  unfold Decoder.stand at moved
  unfold next
  split
  · exact ⟨0, (Cursor.advance_zero _).symm⟩
  · refine ⟨n, ?_⟩
    split <;> rename_i read <;> rw [read] at moved <;> exact moved

/-- After any number of pulls a stream stands somewhere in its buffer, or where it began. -/
theorem cursor_after (n : Nat) (data : Bytes) (start : Nat) :
    (Pulls.after next n (ofBytes data start)).cursor =
      Cursor.ofBytes data (Pulls.after next n (ofBytes data start)).cursor.offset := by
  have moved (s : FrameStream) : ∃ k, (Pulls.after next n s).cursor = s.cursor.advance k := by
    induction n generalizing s with
    | zero => exact ⟨0, (Cursor.advance_zero _).symm⟩
    | succ n ih =>
      obtain ⟨m, first⟩ := cursor_next s
      obtain ⟨k, others⟩ := ih s.next.2
      exact ⟨m + k, by rw [Pulls.after, others, first, Cursor.advance_advance]⟩
  obtain ⟨k, same⟩ := moved (ofBytes data start)
  have here : (ofBytes data start).cursor = Cursor.ofBytes data start := rfl
  rw [here, Cursor.advance_ofBytes] at same
  rw [same]
  rfl

end FrameStream

namespace Wire

/-! ## Streams -/

/-- A pull that gives a frame goes over its encoding. -/
theorem next_over {s later : FrameStream} {f : DemoTape.Frame} (given : s.next = (some (.ok f), later)) :
    later.finished = false ∧ f.offset = s.cursor.offset ∧
      ∃ stored : Frame, stored.content = (f.tick, f.messages) ∧ s.cursor.Over stored.encode later.cursor := by
  unfold FrameStream.next at given
  split at given
  · cases given
  rename_i opened
  split at given
  · rename_i read
    cases given
    exact ⟨Bool.eq_false_iff.mpr opened, frame_over read⟩
  · cases given
  · cases given

/-- The pull that finds the stop command goes over it. -/
theorem next_over_stop {s later : FrameStream} (opened : s.finished = false) (given : s.next = (none, later)) :
    s.cursor.Over [DemoTape.Frame.stopCommand] later.cursor ∧ later.finished := by
  unfold FrameStream.next at given
  rw [if_neg (Bool.eq_false_iff.mp opened)] at given
  split at given
  · cases given
  · rename_i read
    cases given
    exact ⟨stop_over read, rfl⟩
  · cases given

/-- A stream that is drained without a fault has gone over the encoding of its frames and the stop command. -/
theorem stored_of_transcript {s : FrameStream} {frames : List DemoTape.Frame} (opened : s.finished = false)
    (drained : s.transcript = ⟨frames, none⟩) :
    ∃ stored : List Frame, placed s.cursor.offset stored = frames ∧ ∀ n, frames.length < n →
      s.cursor.Over (encode stored ++ [DemoTape.Frame.stopCommand]) (Pulls.after FrameStream.next n s).cursor := by
  induction frames generalizing s with
  | nil =>
    match given : s.next with
    | (some (.ok f), later) =>
      rw [FrameStream.transcript_of_frame given] at drained
      cases drained
    | (some (.error fault), later) =>
      rw [FrameStream.transcript_of_fault given] at drained
      cases drained
    | (none, later) =>
      obtain ⟨passed, ended⟩ := next_over_stop opened given
      refine ⟨[], rfl, fun n some_pull => ?_⟩
      obtain ⟨m, rfl⟩ := Nat.exists_eq_succ_of_ne_zero (Nat.ne_of_gt some_pull)
      rw [Pulls.after, given, Pulls.after_of_fixed]
      · exact passed
      · rw [FrameStream.next_of_finished ended]
  | cons f frames ih =>
    match given : s.next with
    | (some (.ok g), later) =>
      rw [FrameStream.transcript_of_frame given] at drained
      obtain ⟨same, rest⟩ : g = f ∧ later.transcript = ⟨frames, none⟩ := by
        cases whole : later.transcript with
        | mk read fault =>
          rw [whole] at drained
          cases drained
          exact ⟨rfl, rfl⟩
      obtain ⟨still, place, first, contents, passed⟩ := next_over given
      obtain ⟨stored, others, further⟩ := ih still rest
      refine ⟨first :: stored, ?_, fun n beyond => ?_⟩
      · have moved : later.cursor.offset = s.cursor.offset + first.encode.length := by
          rw [passed.2]
          rfl
        rw [placed, ← moved, others, contents, ← place, ← same]
      · obtain ⟨m, rfl⟩ := Nat.exists_eq_succ_of_ne_zero (Nat.ne_of_gt (Nat.zero_lt_of_lt beyond))
        rw [Pulls.after, given, encode_cons, List.append_assoc]
        exact passed.trans (further m (Nat.lt_of_succ_lt_succ beyond))
    | (some (.error fault), later) =>
      rw [FrameStream.transcript_of_fault given] at drained
      cases drained
    | (none, later) =>
      rw [FrameStream.transcript_of_end given] at drained
      cases drained

theorem drained_over {data : Bytes} {start : Nat} {frames : List DemoTape.Frame}
    (drained : Pulls.Yields FrameStream.next (.ofBytes data start) (frames.map .ok)) :
    ∃ stored : List Frame, placed start stored = frames ∧ ∀ n, frames.length < n →
      data.extract start (Pulls.after FrameStream.next n (.ofBytes data start)).cursor.offset =
        encode stored ++ [DemoTape.Frame.stopCommand] := by
  have items := (FrameStream.yields_transcript (.ofBytes data start)).unique drained
  obtain ⟨stored, contents, passed⟩ := stored_of_transcript rfl (Transcript.eq_of_items items)
  exact ⟨stored, contents, fun n beyond => (passed n beyond).extract⟩

/-- Of placed frames, what they say is the content of what is stored. -/
theorem content_placed (start : Nat) (stored : List Frame) :
    (placed start stored).map (fun f => (f.tick, f.messages)) = stored.map Frame.content := by
  induction stored generalizing start with
  | nil => rfl
  | cons f stored ih => rw [placed, List.map_cons, List.map_cons, ih]

theorem masked_of_placed {start start' : Nat} {stored stored' : List Frame}
    (same : (placed start stored).map DemoTape.Frame.masked = (placed start' stored').map DemoTape.Frame.masked) :
    stored.map Frame.masked = stored'.map Frame.masked := by
  have contents (start : Nat) (stored : List Frame) : (placed start stored).map DemoTape.Frame.masked =
      stored.map fun f => (f.content.1, f.content.2.map DemoTape.Message.masked) := by
    have all := congrArg (List.map fun c : Tick × List DemoTape.Message => (c.1, c.2.map DemoTape.Message.masked))
      (content_placed start stored)
    rw [List.map_map, List.map_map] at all
    exact all
  rw [contents, contents] at same
  refine map_eq_of_map (fun f g equal => ?_) same
  exact Frame.masked_of_content (Prod.mk.inj equal).1 (Prod.mk.inj equal).2

/-- **A stream goes over the encoding of what it yields.** For every frame that it yields, on any buffer, the
bytes from its offset to where the stream then stands are the encoding of the frame; whatever else says the same,
up to the bits of NaN, is stored alike, up to these and skipped bytes. So a stream that is drained without a fault
has gone over the encoding of its frames and the stop command, and two such streams whose frames say the same, up
to the bits of NaN, have gone over bytes that differ in skipped bytes and the bits of NaN alone. -/
theorem encode_of_yields (data : Bytes) (start : Nat) :
    let stream := FrameStream.ofBytes data start
    let place n := (Pulls.after FrameStream.next n stream).cursor.offset
    (∀ n f, Pulls.item FrameStream.next stream n = some (.ok f) →
      ∃ stored : Frame, stored.content = (f.tick, f.messages) ∧
        data.extract f.offset (place (n + 1)) = stored.encode ∧
        ∀ other : Frame, (other.content.1, other.content.2.map DemoTape.Message.masked) = f.masked →
          other.masked = stored.masked) ∧
    (∀ frames : List DemoTape.Frame, Pulls.Yields FrameStream.next stream (frames.map .ok) →
      ∃ stored : List Frame, placed start stored = frames ∧ ∀ n, frames.length < n →
        data.extract start (place n) = encode stored ++ [DemoTape.Frame.stopCommand]) ∧
    ∀ (data' : Bytes) (start' : Nat) (frames frames' : List DemoTape.Frame),
      let stream' := FrameStream.ofBytes data' start'
      let place' n := (Pulls.after FrameStream.next n stream').cursor.offset
      Pulls.Yields FrameStream.next stream (frames.map .ok) →
      Pulls.Yields FrameStream.next stream' (frames'.map .ok) →
      frames.map DemoTape.Frame.masked = frames'.map DemoTape.Frame.masked →
      ∃ stored stored' : List Frame, stored.map Frame.masked = stored'.map Frame.masked ∧
        (∀ n, frames.length < n → data.extract start (place n) = encode stored ++ [DemoTape.Frame.stopCommand]) ∧
        ∀ n, frames'.length < n →
          data'.extract start' (place' n) = encode stored' ++ [DemoTape.Frame.stopCommand] := by
  intro stream place
  refine ⟨?_, ?_, ?_⟩
  · intro n f given
    have here := FrameStream.cursor_after n data start
    have pulled : (Pulls.after FrameStream.next n stream).next =
        (some (.ok f), Pulls.after FrameStream.next (n + 1) stream) := by
      rw [Pulls.after_add n 1 stream]
      exact Prod.ext given rfl
    obtain ⟨-, offset, stored, contents, passed⟩ := next_over pulled
    rw [here] at passed
    refine ⟨stored, contents, ?_, fun other same => ?_⟩
    · rw [offset]
      exact passed.extract
    · have same : (other.content.1, other.content.2.map DemoTape.Message.masked) =
          (stored.content.1, stored.content.2.map DemoTape.Message.masked) := by
        rw [same, contents]
        rfl
      exact Frame.masked_of_content (Prod.mk.inj same).1 (Prod.mk.inj same).2
  · intro frames drained
    exact drained_over drained
  · intro data' start' frames frames' stream' place' drained drained' same
    obtain ⟨stored, rfl, bytes⟩ := drained_over drained
    obtain ⟨stored', rfl, bytes'⟩ := drained_over drained'
    exact ⟨stored, stored', masked_of_placed same, bytes, bytes'⟩

/-- Bytes between others: a frame with a NaN and a payload that holds the stop command and the end mark. -/
def embedded : Bytes :=
  [0xFF, 0x02, 1, 0, 0, 0, 0x02, 9, 0, 0, 0, 1, 0, 0x00, 1, 0, 0x68, 0x01, 0x01, 0x00, 0x80, 0x7F, 0x90, 2, 0, 0, 0, 0x07,
    0x00, 0x00, 0x07, 0x02]

theorem encode_of_yields_embedded :
    ∃ nan : Binary64, ∃ stored : Frame, nan.isNaN ∧
      Pulls.item FrameStream.next (.ofBytes embedded 1) 0 =
        some (.ok ⟨1, [.delta 9 [⟨.name "h", .float nan⟩], .other 0x90 2], 1⟩) ∧
      stored.content = (1, [.delta 9 [⟨.name "h", .float nan⟩], .other 0x90 2]) ∧
      embedded.extract 1 30 = stored.encode := by
  have read : (FrameStream.ofBytes embedded 1).transcript =
      ⟨[⟨1, [.delta 9 [⟨.name "h", .float (.ofWord .double 0x7FF8000020000000)⟩], .other 0x90 2], 1⟩], none⟩ := by
    decide +kernel
  have given := FrameStream.yields_transcript (.ofBytes embedded 1) 0
  rw [read] at given
  have place : (Pulls.after FrameStream.next 1 (.ofBytes embedded 1)).cursor.offset = 30 := by decide +kernel
  obtain ⟨stored, contents, bytes, -⟩ := (encode_of_yields embedded 1).1 0 _ given
  change embedded.extract 1 (Pulls.after FrameStream.next 1 (.ofBytes embedded 1)).cursor.offset = _ at bytes
  rw [place] at bytes
  exact ⟨_, stored, by decide +kernel, given, contents, bytes⟩

end Wire
end DemoTape
