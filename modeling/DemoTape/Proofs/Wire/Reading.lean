/-
# Frames are read as they are stored

Every stored thing is read as its content (`reads_message`, `reads_messages`, `frame_encode`), whatever stands
behind it: a byte of a payload is never taken for a kind, an end mark or a command, since the lengths in front
say where the payload ends. `yields_encode` is the whole for a stream of frames.
-/
import DemoTape.Proofs.Decoding.Reads
import DemoTape.Proofs.Frames.Transcript
import DemoTape.Proofs.Wire.Layout
import Mathlib.Data.Set.List

namespace DemoTape
namespace Wire
set_option autoImplicit false

open Decoder

/-! ## Properties -/

theorem reads_wireText (t : Text) : text.Reads t.encode t.content := reads_text t.short

theorem reads_key (k : Key) : propertyKey.Reads k.encode k.content := by
  cases k with
  | name t => exact reads_offset fun _ => (reads_u8 0x00).bind ((reads_wireText t).map PropertyKey.name)
  | slot index => exact reads_offset fun _ => (reads_u8 0x01).bind ((reads_u16 index).map PropertyKey.slot)

theorem reads_boolean (b : Bool) : boolean.Reads [if b then 1 else 0] b := by
  cases b with
  | true => exact reads_offset fun _ => (reads_u8 1).bind_pure rfl
  | false => exact reads_offset fun _ => (reads_u8 0).bind_pure rfl

theorem reads_vec3 (v : Vec3) :
    vec3.Reads (Bytes.ofNat 4 v.x.toWord ++ (Bytes.ofNat 4 v.y.toWord ++ Bytes.ofNat 4 v.z.toWord)) v :=
  (reads_f32 v.x).bind ((reads_f32 v.y).bind ((reads_f32 v.z).bind_pure rfl))

theorem reads_value (v : Value) : value.Reads v.encode v.content := by
  refine reads_offset fun _ => ?_
  cases v with
  | integer i => exact (reads_u8 0x00).bind ((reads_i32 i).map fun i : Int32 => DemoTape.Value.integer i.toInt64)
  | float x => exact (reads_u8 0x01).bind ((reads_f32 x).map fun x : Binary32 => DemoTape.Value.float x.widen)
  | text t => exact (reads_u8 0x02).bind ((reads_wireText t).map DemoTape.Value.text)
  | boolean b => exact (reads_u8 0x03).bind ((reads_boolean b).map DemoTape.Value.boolean)
  | vector v => exact (reads_u8 0x04).bind ((reads_vec3 v).map DemoTape.Value.vector)

theorem reads_assignment (a : Assignment) : assignment.Reads a.encode a.content :=
  (reads_key a.key).bind ((reads_value a.value).bind_pure rfl)

theorem reads_tableEntry (e : TableEntry) : tableEntry.Reads e.encode e.content :=
  (reads_u16 e.index).bind ((reads_wireText e.text).bind_pure rfl)

/-! ## Messages -/

theorem reads_message (start : Nat) (m : Message) : (message start m.kind).Reads m.body m.content := by
  cases m with
  | baseline entity cls properties =>
    exact (reads_u32 entity).bind ((reads_wireText cls).bind
      ((reads_counted properties.few fun a _ => reads_assignment a).bind_pure rfl))
  | delta entity properties =>
    exact (reads_u32 entity).bind ((reads_counted properties.few fun a _ => reads_assignment a).bind_pure rfl)
  | remove entity => exact (reads_u32 entity).map DemoTape.Message.remove
  | table name entries =>
    exact (reads_wireText name).bind ((reads_counted entries.few fun e _ => reads_tableEntry e).bind_pure rfl)
  | command sequence input =>
    have body : input.encode (fun b => [b]) = Bytes.ofNat 2 input.items.length ++ input.items := by
      simp [Counted.encode]
    rw [Message.body, body]
    exact (reads_u32 sequence).bind
      (reads_sized input.few fun size same => (reads_bytes same.symm).bind_pure rfl)
  | other kind payload skipped short =>
    have size : (UInt32.ofNat payload.length).toNat = payload.length := UInt32.toNat_ofNat_of_lt' short
    have length := reads_u32 (UInt32.ofNat payload.length)
    rw [size] at length
    have apart {k : UInt8} (below : k < 0x80) : kind ≠ k := by
      rintro rfl
      exact absurd (UInt8.lt_of_lt_of_le below skipped) (UInt8.lt_irrefl _)
    show (message start kind).Reads _ _
    rw [message, if_neg (apart (by decide)), if_neg (apart (by decide)), if_neg (apart (by decide)),
      if_neg (apart (by decide)), if_neg (apart (by decide)),
      if_pos (show DemoTape.Message.firstSkippedKind ≤ kind from skipped)]
    exact length.bind ((reads_skip size.symm).bind_pure rfl)

/-- No message begins with the end mark. -/
theorem kind_ne_endMark (m : Message) : m.kind ≠ Message.endMark := by
  cases m with
  | baseline | delta | remove | table | command => exact of_decide_eq_true rfl
  | other kind payload skipped short =>
    rintro rfl
    revert skipped
    decide

theorem reads_messages {rounds : Nat} {ms : List Message} (enough : ms.length < rounds) :
    (messages rounds).Reads (ms.flatMap Message.encode ++ [0x00]) (ms.map Message.content) := by
  induction ms generalizing rounds with
  | nil =>
    cases rounds with
    | zero => cases enough
    | succ rounds => exact reads_offset fun _ => (reads_u8 0x00).bind_pure rfl
  | cons m ms ih =>
    cases rounds with
    | zero => cases enough
    | succ rounds =>
      refine reads_offset fun start => ?_
      rw [List.flatMap_cons, List.append_assoc]
      refine (reads_u8 m.kind).bind ?_
      rw [if_neg (kind_ne_endMark m)]
      exact (reads_message start m).bind ((ih (Nat.lt_of_succ_lt_succ enough)).bind_pure rfl)

/-! ## Frames -/

theorem length_le_messages (ms : List Message) : ms.length ≤ (ms.flatMap Message.encode).length := by
  induction ms with
  | nil => exact Nat.le_refl _
  | cons m ms ih =>
    simp only [List.flatMap_cons, List.length_append, List.length_cons, Message.encode]
    omega

theorem reads_packet {last : Option Tick} (start : Nat) (f : Frame) (after : ∀ l ∈ last, l < f.tick) :
    (packet last start).Reads (Bytes.ofNat 4 f.tick.toNat ++ (f.messages.flatMap Message.encode ++ [0x00]))
      { tick := f.tick, messages := f.messages.map Message.content, offset := start } := by
  refine reads_offset fun _ => (reads_u32 f.tick).bind ?_
  -- a round for each message is enough, as each takes a byte at least
  have rest : (do
      let left ← remaining
      let messages ← messages (left + 1)
      pure { tick := f.tick, messages, offset := start } : Decoder DemoTape.Frame).Reads
      (f.messages.flatMap Message.encode ++ [0x00])
      { tick := f.tick, messages := f.messages.map Message.content, offset := start } := by
    refine reads_remaining fun left within => (reads_messages ?_).bind_pure rfl
    have few := length_le_messages f.messages
    rw [List.length_append] at within
    omega
  cases last with
  | none => exact rest
  | some l =>
    dsimp only
    rw [if_neg (UInt32.not_le.mpr (after l rfl))]
    exact rest

/-- A frame, with the place where the cursor stands. -/
theorem frame_apply (last : Option Tick) (c : Cursor) : frame last c = (do
    if ← atEnd then corrupt c.offset .missingStop
    else
      let command ← u8
      if command = Frame.stopCommand then pure none
      else if command = Frame.packetCommand then some <$> packet last c.offset
      else corrupt c.offset (.unknownCommand command) : Decoder (Option DemoTape.Frame)) c := rfl

/-- A frame is read where it stands. -/
theorem frame_encode {last : Option Tick} {c : Cursor} {f : Frame} (met : c.At f.encode)
    (after : ∀ l ∈ last, l < f.tick) :
    frame last c = .ok (some { tick := f.tick, messages := f.messages.map Message.content, offset := c.offset })
      (c.advance f.encode.length) := by
  rw [frame_apply]
  refine reads_atEnd ?_ c met
  exact (reads_u8 0x02).bind ((reads_packet c.offset f after).map some)

/-- The stop command is read where it stands. -/
theorem frame_stop {last : Option Tick} {c : Cursor} (met : c.At [0x07]) :
    frame last c = .ok none (c.advance 1) := by
  rw [frame_apply]
  refine reads_atEnd ?_ c met
  exact (reads_u8 0x07).bind_pure rfl

/-! ## Streams -/

/-- A stream in front of these frames and the stop command, with a last tick before their ticks. -/
structure Ready (s : FrameStream) (frames : List Frame) : Prop where
  opened : s.finished = false
  met : s.cursor.At (encode frames ++ [Frame.stopCommand])
  ascending : (s.lastTick.toList ++ frames.map Frame.tick).Pairwise (· < ·)

theorem next_of_ready_nil {s : FrameStream} (ready : Ready s []) :
    s.next = (none, { s with cursor := s.cursor.advance 1, finished := true }) := by
  have read : frame s.lastTick s.cursor = _ := frame_stop ready.met
  simp [FrameStream.next, ready.opened, read]

theorem next_of_met {s : FrameStream} {f : Frame} (opened : s.finished = false) (met : s.cursor.At f.encode)
    (after : ∀ l ∈ s.lastTick, l < f.tick) :
    s.next = (some (.ok ⟨f.tick, f.messages.map Message.content, s.cursor.offset⟩),
      { s with cursor := s.cursor.advance f.encode.length, lastTick := some f.tick, count := s.count + 1 }) := by
  have read : frame s.lastTick s.cursor = _ := frame_encode met after
  rw [FrameStream.next, if_neg (Bool.eq_false_iff.mp opened), read]

theorem next_of_ready_cons {s : FrameStream} {f : Frame} {frames : List Frame} (ready : Ready s (f :: frames)) :
    ∃ later, s.next = (some (.ok ⟨f.tick, f.messages.map Message.content, s.cursor.offset⟩), later) ∧
      Ready later frames ∧ later.cursor = s.cursor.advance f.encode.length ∧ later.count = s.count + 1 := by
  obtain ⟨opened, met, ascending⟩ := ready
  rw [encode_cons, List.append_assoc] at met
  obtain ⟨-, following, before⟩ := List.pairwise_append.mp ascending
  have after : ∀ l ∈ s.lastTick, l < f.tick := fun l mem =>
    before l (Option.mem_toList.mpr mem) f.tick (List.mem_cons_self ..)
  exact ⟨_, next_of_met opened met.front after, ⟨opened, met.advance, following⟩, rfl, rfl⟩

theorem transcript_of_ready {s : FrameStream} {frames : List Frame} (ready : Ready s frames) :
    s.transcript = ⟨placed s.cursor.offset frames, none⟩ := by
  induction frames generalizing s with
  | nil => exact FrameStream.transcript_of_end (next_of_ready_nil ready)
  | cons f frames ih =>
    obtain ⟨later, given, ready, cursor, -⟩ := next_of_ready_cons ready
    rw [FrameStream.transcript_of_frame given, ih ready, cursor]
    rfl

/-- A frame whose tick does not come after the last one is a fault. -/
theorem after_or_fault {s : FrameStream} {f : Frame} (opened : s.finished = false) (met : s.cursor.At f.encode) :
    (∀ l ∈ s.lastTick, l < f.tick) ∨ ∃ fault later, s.next = (some (.error fault), later) := by
  have first : frame none s.cursor = .ok (some _) _ := frame_encode met nofun
  cases read : frame s.lastTick s.cursor with
  | error fault after => exact .inr ⟨fault, _, by rw [FrameStream.next, if_neg (Bool.eq_false_iff.mp opened), read]⟩
  | ok found after =>
    cases found with
    | some g =>
      obtain ⟨same, -⟩ := EStateM.Result.ok.inj (first.symm.trans (frame_first read))
      obtain ⟨-, ascends, -⟩ := frame_ok read
      rw [← Option.some.inj same] at ascends
      exact .inl ascends
    | none =>
      -- the stop command is no frame
      obtain ⟨-, between, command, -⟩ := frame_eq_some.mp first
      cases (frame_eq_none read).symm.trans command

/-- The ticks of frames ascend if a stream in front of them has no fault. -/
theorem ready_of_complete {s : FrameStream} {frames : List Frame} (opened : s.finished = false)
    (met : s.cursor.At (encode frames ++ [Frame.stopCommand])) (complete : s.transcript.fault = none) :
    Ready s frames := by
  induction frames generalizing s with
  | nil => exact ⟨opened, met, by cases s.lastTick <;> simp⟩
  | cons f frames ih =>
    have here : s.cursor.At (f.encode ++ (encode frames ++ [Frame.stopCommand])) := by
      rwa [encode_cons, List.append_assoc] at met
    rcases after_or_fault opened here.front with after | ⟨fault, later, failed⟩
    · rw [FrameStream.transcript_of_frame (next_of_met opened here.front after)] at complete
      have following : (f.tick :: frames.map Frame.tick).Pairwise (· < ·) :=
        (ih (s := { s with cursor := _, lastTick := some f.tick, count := _ }) opened here.advance complete).ascending
      refine ⟨opened, met, List.pairwise_append.mpr ⟨by cases s.lastTick <;> simp, following, ?_⟩⟩
      intro l last tick mem
      have before := after l (Option.mem_toList.mp last)
      rcases List.mem_cons.mp mem with rfl | mem
      · exact before
      · exact UInt32.lt_trans before ((List.pairwise_cons.mp following).1 tick mem)
    · rw [FrameStream.transcript_of_fault failed] at complete
      cases complete

/-- After more pulls than there are frames, the stream has ended behind the stop command. -/
theorem after_of_ready {s : FrameStream} {frames : List Frame} {n : Nat} (ready : Ready s frames)
    (beyond : frames.length < n) :
    (Pulls.after FrameStream.next n s).count = s.count + frames.length ∧
      (Pulls.after FrameStream.next n s).cursor.offset = s.cursor.offset + (encode frames).length + 1 := by
  induction frames generalizing s n with
  | nil =>
    cases n with
    | zero => cases beyond
    | succ n =>
      rw [Pulls.after, next_of_ready_nil ready, Pulls.after_of_fixed]
      · exact ⟨rfl, rfl⟩
      · rw [FrameStream.next_of_finished rfl]
  | cons f frames ih =>
    cases n with
    | zero => cases beyond
    | succ n =>
      obtain ⟨later, given, ready, cursor, count⟩ := next_of_ready_cons ready
      obtain ⟨counted, placed⟩ := ih ready (Nat.lt_of_succ_lt_succ beyond)
      rw [Pulls.after, given, counted, placed, cursor, count, encode_cons, List.length_append, List.length_cons,
        Cursor.offset_advance]
      constructor <;> omega

/-! ## What can be stored -/

theorem exists_items {α β : Type} {content : α → β} {items : List β} (each : ∀ b ∈ items, ∃ a, content a = b) :
    ∃ stored : List α, stored.map content = items := by
  have within : items ∈ Set.range (List.map content) := by
    rw [Set.range_list_map]
    exact each
  exact within

theorem exists_key {k : PropertyKey} (fits : KeyFits k) : ∃ stored : Key, stored.content = k := by
  cases k with
  | name s => exact ⟨.name ⟨s, fits⟩, rfl⟩
  | slot index => exact ⟨.slot index, rfl⟩

theorem exists_value {v : DemoTape.Value} (fits : ValueFits v) : ∃ stored : Value, stored.content = v := by
  cases v with
  | integer i =>
    refine ⟨.integer (Int32.ofInt i.toInt), congrArg DemoTape.Value.integer (Int64.toInt_inj.mp ?_)⟩
    rw [Int32.toInt_toInt64, Int32.toInt_ofInt_of_le fits.1 fits.2]
  | float x =>
    obtain ⟨narrow, rfl⟩ := fits
    exact ⟨.float narrow, rfl⟩
  | text s => exact ⟨.text ⟨s, fits⟩, rfl⟩
  | boolean b => exact ⟨.boolean b, rfl⟩
  | vector v => exact ⟨.vector v, rfl⟩

theorem exists_assignment {a : DemoTape.Assignment} (fits : AssignmentFits a) :
    ∃ stored : Assignment, stored.content = a := by
  obtain ⟨key, value⟩ := a
  obtain ⟨key, rfl⟩ := exists_key fits.1
  obtain ⟨value, rfl⟩ := exists_value fits.2
  exact ⟨⟨key, value⟩, rfl⟩

theorem exists_properties {properties : List DemoTape.Assignment} (few : properties.length ≤ 65535)
    (fits : ∀ a ∈ properties, AssignmentFits a) :
    ∃ stored : Counted Assignment, stored.items.map Assignment.content = properties := by
  obtain ⟨items, rfl⟩ := exists_items fun a mem => exists_assignment (fits a mem)
  rw [List.length_map] at few
  exact ⟨⟨items, few⟩, rfl⟩

theorem exists_message {m : DemoTape.Message} (fits : MessageFits m) : ∃ stored : Message, stored.content = m := by
  cases m with
  | baseline entity cls properties =>
    obtain ⟨short, few, each⟩ := fits
    obtain ⟨stored, rfl⟩ := exists_properties few each
    exact ⟨.baseline entity ⟨cls, short⟩ stored, rfl⟩
  | delta entity properties =>
    obtain ⟨stored, rfl⟩ := exists_properties fits.1 fits.2
    exact ⟨.delta entity stored, rfl⟩
  | remove entity => exact ⟨.remove entity, rfl⟩
  | table name entries =>
    obtain ⟨short, few, each⟩ := fits
    have stored : ∀ e ∈ entries, ∃ stored : TableEntry, stored.content = e := by
      intro e mem
      exact ⟨⟨e.index, e.text, each e mem⟩, rfl⟩
    obtain ⟨items, rfl⟩ := exists_items stored
    rw [List.length_map] at few
    exact ⟨.table ⟨name, short⟩ ⟨items, few⟩, rfl⟩
  | command sequence input => exact ⟨.command sequence ⟨input, fits⟩, rfl⟩
  | other kind length =>
    have size : (List.replicate length.toNat (0 : UInt8)).length = length.toNat := List.length_replicate
    refine ⟨.other kind (List.replicate length.toNat 0) fits (by rw [size]; exact length.toNat_lt), ?_⟩
    show DemoTape.Message.other kind (UInt32.ofNat _) = _
    rw [size, UInt32.ofNat_toNat]

theorem fits_key (k : Key) : KeyFits k.content := by
  cases k with
  | name t => exact t.short
  | slot index => exact trivial

theorem fits_value (v : Value) : ValueFits v.content := by
  cases v with
  | integer i =>
    show -2 ^ 31 ≤ i.toInt64.toInt ∧ i.toInt64.toInt < 2 ^ 31
    rw [Int32.toInt_toInt64]
    exact ⟨i.le_toInt, i.toInt_lt⟩
  | float x => exact ⟨x, rfl⟩
  | text t => exact t.short
  | boolean b => exact trivial
  | vector v => exact trivial

theorem fits_properties (properties : Counted Assignment) :
    (properties.items.map Assignment.content).length ≤ 65535 ∧
      ∀ a ∈ properties.items.map Assignment.content, AssignmentFits a := by
  constructor
  · rw [List.length_map]
    exact properties.few
  · intro a mem
    obtain ⟨stored, -, rfl⟩ := List.mem_map.mp mem
    exact ⟨fits_key stored.key, fits_value stored.value⟩

theorem fits_message (m : Message) : MessageFits m.content := by
  cases m with
  | baseline entity cls properties => exact ⟨cls.short, fits_properties properties⟩
  | delta entity properties => exact fits_properties properties
  | remove entity => exact trivial
  | table name entries =>
    refine ⟨name.short, by rw [List.length_map]; exact entries.few, ?_⟩
    intro e mem
    obtain ⟨stored, -, rfl⟩ := List.mem_map.mp mem
    exact stored.text.short
  | command sequence input => exact input.few
  | other kind payload skipped short => exact skipped

/-- A message fits exactly if it is the content of a stored one. -/
theorem messageFits_iff {m : DemoTape.Message} : MessageFits m ↔ ∃ stored : Message, stored.content = m := by
  constructor
  · exact exists_message
  · rintro ⟨stored, rfl⟩
    exact fits_message stored

theorem exists_frames {contents : List (Tick × List DemoTape.Message)}
    (fits : ∀ c ∈ contents, ∀ m ∈ c.2, MessageFits m) :
    ∃ frames : List Frame, frames.map Frame.content = contents := by
  refine exists_items fun c mem => ?_
  obtain ⟨tick, ms⟩ := c
  obtain ⟨stored, rfl⟩ := exists_items fun m member => messageFits_iff.mp (fits _ mem m member)
  exact ⟨⟨tick, stored⟩, rfl⟩

/-! ## Whole streams -/

theorem at_ofBytes (front bytes back : Bytes) :
    (Cursor.ofBytes (front ++ (bytes ++ back)) front.length).At bytes := by
  refine ⟨?_, back, List.drop_left⟩
  show front.length ≤ (front ++ (bytes ++ back)).length
  rw [List.length_append]
  omega

/-- **Frames that fit, with ascending ticks, can be stored; and however they are stored, whatever stands before
and behind them, they are what the stream yields**, each at its place. After them the stream stands right behind
the stop command and has counted them. -/
theorem yields_encode {contents : List (Tick × List DemoTape.Message)}
    (fits : ∀ c ∈ contents, ∀ m ∈ c.2, MessageFits m) (ascending : contents.Pairwise fun a b => a.1 < b.1) :
    (∃ frames : List Frame, frames.map Frame.content = contents) ∧
      ∀ frames : List Frame, frames.map Frame.content = contents → ∀ front back : Bytes,
        let stream :=
          FrameStream.ofBytes (front ++ (encode frames ++ DemoTape.Frame.stopCommand :: back)) front.length
        Pulls.Yields FrameStream.next stream ((placed front.length frames).map .ok) ∧
          ∀ n, contents.length < n →
            (Pulls.after FrameStream.next n stream).count = contents.length ∧
              (Pulls.after FrameStream.next n stream).cursor.offset =
                front.length + (encode frames).length + 1 := by
  refine ⟨exists_frames fits, ?_⟩
  rintro frames rfl front back stream
  have met := at_ofBytes front (encode frames ++ [DemoTape.Frame.stopCommand]) back
  rw [List.append_assoc, List.singleton_append] at met
  have ticks : (frames.map Frame.tick).Pairwise (· < ·) := by
    rw [List.pairwise_map] at ascending ⊢
    exact ascending
  have ready : Ready stream frames := ⟨rfl, met, ticks⟩
  constructor
  · have yields := FrameStream.yields_transcript stream
    rw [transcript_of_ready ready, Transcript.items, Option.toList_none, List.map_nil, List.append_nil] at yields
    exact yields
  · intro n beyond
    rw [List.length_map] at beyond ⊢
    obtain ⟨counted, placed⟩ := after_of_ready ready beyond
    exact ⟨counted.trans (Nat.zero_add _), placed⟩

/-- Two frames whose payloads hold the stop command, the packet command and the end mark. -/
def crafty : List Frame :=
  [⟨5, [.delta 1 ⟨[⟨.name ⟨"hp", by decide +kernel⟩, .integer (-1)⟩], by decide⟩,
      .other 0x80 [0x07, 0x02, 0x00] (by decide) (by decide)]⟩,
    ⟨9, [.command 7 ⟨[0x00, 0x07], by decide⟩]⟩]

theorem yields_crafty :
    (∀ c ∈ crafty.map Frame.content, ∀ m ∈ c.2, MessageFits m) ∧
      (crafty.map Frame.content).Pairwise (fun a b => a.1 < b.1) ∧
      Pulls.Yields FrameStream.next
        (.ofBytes ([0x07, 0x00] ++ (encode crafty ++ DemoTape.Frame.stopCommand :: [0x02])) 2)
        [.ok ⟨5, [.delta 1 [⟨.name "hp", .integer (-1)⟩], .other 0x80 3], 2⟩, .ok ⟨9, [.command 7 [0x00, 0x07]], 33⟩] := by
  have fits : ∀ c ∈ crafty.map Frame.content, ∀ m ∈ c.2, MessageFits m := by
    intro c mem m member
    obtain ⟨f, -, rfl⟩ := List.mem_map.mp mem
    obtain ⟨stored, -, rfl⟩ := List.mem_map.mp member
    exact fits_message stored
  have ascending : (crafty.map Frame.content).Pairwise fun a b => a.1 < b.1 := by decide +kernel
  have read : placed 2 crafty =
      [⟨5, [.delta 1 [⟨.name "hp", .integer (-1)⟩], .other 0x80 3], 2⟩, ⟨9, [.command 7 [0x00, 0x07]], 33⟩] := by
    decide +kernel
  have yields := ((yields_encode fits ascending).2 crafty rfl [0x07, 0x00] [0x02]).1
  rw [show ([0x07, 0x00] : Bytes).length = 2 from rfl, read] at yields
  exact ⟨fits, ascending, yields⟩

end Wire
end DemoTape
