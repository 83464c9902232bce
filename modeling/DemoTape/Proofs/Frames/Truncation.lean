/-
# Streams on the first bytes alone

A stream that is drained without a fault notes where each of its frames ends (`FrameStream.ends`) and where it comes
to stand behind the stop command (`FrameStream.stop`). Without the bytes from a limit on, it gives the frames that
end before the limit and then finds that the data are at fault (`Drains.transcript_cut_short`): a limit within a frame
is never taken for the end of a shorter one, nor for a stop. A limit behind the stop command changes nothing
(`Drains.transcript_cut`).

A frame that is still whole is read again because it is stored there (`Wire.frame_over`, `Wire.frame_encode`). One
that is not runs out of data, as its decoder depends on the bytes behind the limit in no other way
(`Decoder.local_packet`).
-/
import DemoTape.Proofs.Decoding.Shortened
import DemoTape.Proofs.Wire.Reading
import DemoTape.Proofs.Wire.Spelling

namespace DemoTape
set_option autoImplicit false

/-! ## Bytes that a cursor went over -/

namespace Cursor

/-- What a cursor went over within a limit is still there. -/
theorem Over.at_cut {c after : Cursor} {bytes : Bytes} {limit : Nat} (passed : c.Over bytes after)
    (taken : bytes ≠ []) (within : after.offset ≤ limit) : (c.cut limit).At bytes := by
  obtain ⟨here, rfl⟩ := passed
  rw [offset_advance] at within
  have positive := List.length_pos_iff.mpr taken
  have length := c.length_rest
  rw [here, List.length_append] at length
  refine ⟨?_, (c.rest.drop bytes.length).take (limit - c.offset - bytes.length), ?_⟩
  · rw [offset_cut, size_cut]
    omega
  · have enough : bytes.length ≤ limit - c.offset := by omega
    rw [rest_cut, here, List.drop_left, List.take_append, List.take_of_length_le enough]

/-- The last byte that a cursor went over stands right before it. -/
theorem Over.last {data bytes : Bytes} {byte : UInt8} {start : Nat} {after : Cursor}
    (passed : (ofBytes data start).Over (bytes ++ [byte]) after) : data[after.offset - 1]? = some byte := by
  obtain ⟨rest, rfl⟩ := passed
  have there : data.drop start = bytes ++ [byte] ++ ((ofBytes data start).advance _).rest := rest
  have place : start + (bytes ++ [byte]).length - 1 = start + bytes.length := by
    rw [List.length_append, List.length_singleton]
    omega
  show data[start + (bytes ++ [byte]).length - 1]? = some byte
  rw [place, ← List.getElem?_drop, there]
  simp

end Cursor

namespace Wire

/-- The encoding of a frame ends with the end mark. -/
theorem exists_encode (f : Frame) : ∃ front, f.encode = front ++ [DemoTape.Message.endMark] := by
  refine ⟨0x02 :: (Bytes.ofNat 4 f.tick.toNat ++ f.messages.flatMap Message.encode), ?_⟩
  simp [Frame.encode, DemoTape.Message.endMark]

end Wire

/-! ## Frames without the bytes from a limit on -/

namespace Decoder
variable {last : Option Tick} {c after : Cursor} {found : Option Frame} {limit : Nat}

/-- What ends within the limit is read as before. -/
theorem frame_cut (read : frame last c = .ok found after) (within : after.offset ≤ limit) :
    frame last (c.cut limit) = .ok found (after.cut limit) := by
  cases found with
  | none =>
    have passed := Wire.stop_over read
    rw [Wire.frame_stop (passed.at_cut (List.cons_ne_nil _ _) within), Cursor.cut_advance, passed.2]
    rfl
  | some f =>
    obtain ⟨ascends, -⟩ := (frame_ok read).2
    obtain ⟨place, stored, content, passed⟩ := Wire.frame_over read
    obtain ⟨tick, messages⟩ := Prod.mk.inj content
    obtain ⟨front, ending⟩ := Wire.exists_encode stored
    have met := passed.at_cut (by simp [ending]) within
    rw [Wire.frame_encode met (tick ▸ ascends), Cursor.cut_advance, ← passed.2, tick, messages, Cursor.offset_cut,
      ← place]

theorem frame_atEnd (ended : c.atEnd) : frame last c = .error (.corrupt c.offset .missingStop) c := by
  rw [Wire.frame_apply]
  show (if c.atEnd then corrupt c.offset .missingStop else _ : Decoder (Option Frame)) c = _
  rw [if_pos ended]
  rfl

/-- Where a byte is left, a frame depends on the bytes behind the limit only in that it may miss them. -/
theorem shortened_frame (last : Option Tick) {c : Cursor} (left : c.offset < min limit c.size) :
    Shortened limit (frame last c) (frame last (c.cut limit)) := by
  have command : (do
      let command ← u8
      if command = Frame.stopCommand then pure none
      else if command = Frame.packetCommand then some <$> packet last c.offset
      else corrupt c.offset (.unknownCommand command) : Decoder (Option Frame)).Local := by
    refine local_bind local_congruence.u8 fun command => ?_
    exact local_ite (local_pure _) (local_ite (local_map _ (local_packet _ _)) (local_corrupt _ _))
  have whole : c.atEnd = false := by simp [Cursor.atEnd]; omega
  have short : (c.cut limit).atEnd = false := by simp [Cursor.atEnd]; omega
  rw [Wire.frame_apply, Wire.frame_apply]
  show Shortened limit ((if c.atEnd then _ else _ : Decoder _) c)
    ((if (c.cut limit).atEnd then _ else _ : Decoder _) (c.cut limit))
  rw [whole, short]
  exact command c limit (by omega)

/-- What reaches over the limit is not read: the data end too early. -/
theorem frame_cut_short (read : frame last c = .ok found after) (begun : c.offset ≤ limit)
    (short : limit < after.offset) :
    ∃ fault left, frame last (c.cut limit) = .error fault left ∧ fault.category = .corruptData := by
  obtain ⟨n, inside, moved⟩ := (forward_frame last).of_ok read
  have more : limit < c.size := by
    rw [moved, Cursor.offset_advance] at short
    unfold Cursor.remaining at inside
    omega
  by_cases boundary : c.offset = limit
  · have ended : (c.cut limit).atEnd := by
      simp [Cursor.atEnd, boundary]
    exact ⟨_, _, frame_atEnd ended, rfl⟩
  · have left : c.offset < min limit c.size := by omega
    have alike := shortened_frame last left
    rw [read] at alike
    generalize frame last (c.cut limit) = result at alike ⊢
    cases alike with
    | ok within => exact absurd within (Nat.not_le.mpr short)
    | endOfData => exact ⟨_, _, rfl, rfl⟩

end Decoder

namespace FrameStream
variable {s later : FrameStream} {found : Option (Except Fault Frame)} {f : Frame} {limit : Nat}

/-! ## Where frames end -/

/-- The frames of a stream, each with the offset where it ends. -/
def ends (s : FrameStream) : List (Frame × Nat) :=
  s.transcript.frames.mapIdx fun n frame => (frame, (Pulls.after next (n + 1) s).cursor.offset)

/-- Where the stream stands after the pull behind its last frame. -/
def stop (s : FrameStream) : Nat := (Pulls.after next (s.transcript.frames.length + 1) s).cursor.offset

theorem ends_of_frame (given : s.next = (some (.ok f), later)) : s.ends = (f, later.cursor.offset) :: later.ends := by
  rw [ends, transcript_of_frame given, List.mapIdx_cons]
  simp only [Pulls.after, given, ends]

theorem ends_of_end (given : s.next = (none, later)) : s.ends = [] := by
  rw [ends, transcript_of_end given, List.mapIdx_nil]

theorem stop_of_frame (given : s.next = (some (.ok f), later)) : s.stop = later.stop := by
  rw [stop, transcript_of_frame given, List.length_cons, Pulls.after, given]
  rfl

theorem stop_of_end (given : s.next = (none, later)) : s.stop = later.cursor.offset := by
  rw [stop, transcript_of_end given, List.length_nil, Pulls.after, given]
  rfl

/-- Pulls never put the cursor back. -/
theorem offset_le_after (n : Nat) (s : FrameStream) : s.cursor.offset ≤ (Pulls.after next n s).cursor.offset := by
  induction n generalizing s with
  | zero => exact Nat.le_refl _
  | succ n ih =>
    obtain ⟨k, moved⟩ := cursor_next s
    have further := ih s.next.2
    rw [moved, Cursor.offset_advance] at further
    rw [Pulls.after]
    omega

theorem offset_le_stop (s : FrameStream) : s.cursor.offset ≤ s.stop := offset_le_after _ s

theorem offset_le_ends {e : Frame × Nat} (mem : e ∈ s.ends) : s.cursor.offset ≤ e.2 := by
  obtain ⟨n, inside, rfl⟩ := List.mem_mapIdx.mp mem
  exact offset_le_after _ s

/-! ## Pulls without the bytes from a limit on -/

/-- The stream without the bytes from the limit on. -/
def cut (s : FrameStream) (limit : Nat) : FrameStream := { s with cursor := s.cursor.cut limit }

theorem ofBytes_take (data : Bytes) (limit offset : Nat) :
    ofBytes (data.take limit) offset = (ofBytes data offset).cut limit := by
  rw [ofBytes, Cursor.ofBytes_take]
  rfl

theorem next_eq_frame : s.next = (some (.ok f), later) ↔ s.finished = false ∧
    ∃ after, Decoder.frame s.lastTick s.cursor = .ok (some f) after ∧
      { s with cursor := after, lastTick := some f.tick, count := s.count + 1 } = later := by
  unfold next
  cases s.finished with
  | true => simp
  | false => cases Decoder.frame s.lastTick s.cursor with
    | error fault after => simp
    | ok found after => cases found with
      | none => simp
      | some g =>
        simp
        rintro rfl
        exact Iff.rfl

theorem next_eq_end (opened : s.finished = false) : s.next = (none, later) ↔
    ∃ after, Decoder.frame s.lastTick s.cursor = .ok none after ∧
      { s with cursor := after, finished := true } = later := by
  unfold next
  cases Decoder.frame s.lastTick s.cursor with
  | error fault after => simp [opened]
  | ok found after => cases found <;> simp [opened]

theorem next_of_error {fault : Fault} {after : Cursor} (opened : s.finished = false)
    (failed : Decoder.frame s.lastTick s.cursor = .error fault after) :
    s.next = (some (.error fault), { s with cursor := after, finished := true }) := by
  rw [next, if_neg (Bool.eq_false_iff.mp opened), failed]

theorem next_cut_of_frame (given : s.next = (some (.ok f), later)) (within : later.cursor.offset ≤ limit) :
    (s.cut limit).next = (some (.ok f), later.cut limit) := by
  obtain ⟨opened, after, read, rfl⟩ := next_eq_frame.mp given
  exact next_eq_frame.mpr ⟨opened, after.cut limit, Decoder.frame_cut read within, rfl⟩

theorem next_cut_of_end (opened : s.finished = false) (given : s.next = (none, later))
    (within : later.cursor.offset ≤ limit) : (s.cut limit).next = (none, later.cut limit) := by
  obtain ⟨after, read, rfl⟩ := (next_eq_end opened).mp given
  exact (next_eq_end (s := s.cut limit) opened).mpr ⟨after.cut limit, Decoder.frame_cut read within, rfl⟩

/-- A pull that reaches over the limit finds a fault. -/
theorem next_cut_short (opened : s.finished = false) (given : s.next = (found, later))
    (sound : ∀ fault, found ≠ some (.error fault)) (begun : s.cursor.offset ≤ limit)
    (short : limit < later.cursor.offset) :
    ∃ fault left, (s.cut limit).next = (some (.error fault), left) ∧ fault.category = .corruptData := by
  have cut {read : Option Frame} {after : Cursor} (whole : Decoder.frame s.lastTick s.cursor = .ok read after)
      (beyond : limit < after.offset) :
      ∃ fault left, (s.cut limit).next = (some (.error fault), left) ∧ fault.category = .corruptData := by
    obtain ⟨fault, left, failed, category⟩ := Decoder.frame_cut_short whole begun beyond
    exact ⟨fault, _, next_of_error (s := s.cut limit) opened failed, category⟩
  match found with
  | none =>
    obtain ⟨after, whole, rfl⟩ := (next_eq_end opened).mp given
    exact cut whole short
  | some (.ok f) =>
    obtain ⟨-, after, whole, rfl⟩ := next_eq_frame.mp given
    exact cut whole short
  | some (.error fault) => exact absurd rfl (sound fault)

/-! ## All the pulls -/

/-- An open stream that can be drained without a fault. -/
inductive Drains : FrameStream → Prop where
  | stop {s later : FrameStream} (opened : s.finished = false) (given : s.next = (none, later)) : Drains s
  | frame {s later : FrameStream} {f : Frame} (given : s.next = (some (.ok f), later)) (rest : Drains later) :
    Drains s

theorem drains_of_transcript {s : FrameStream} (opened : s.finished = false) (drained : s.transcript.fault = none) :
    s.Drains := by
  match given : s.next with
  | (some (.ok f), later) =>
    obtain ⟨-, -, less⟩ := next_frame given
    rw [transcript_of_frame given] at drained
    exact .frame given (drains_of_transcript (Wire.next_over given).1 drained)
  | (some (.error fault), later) =>
    rw [transcript_of_fault given] at drained
    cases drained
  | (none, later) => exact .stop opened given
termination_by s.cursor.remaining

theorem Drains.map_fst_ends (drains : s.Drains) : s.ends.map Prod.fst = s.transcript.frames := by
  induction drains with
  | stop opened given => rw [ends_of_end given, transcript_of_end given, List.map_nil]
  | frame given rest ih => rw [ends_of_frame given, transcript_of_frame given, List.map_cons, ih]

/-- The last bytes of the frames and of the stream say what they are. -/
theorem Drains.marks {data : Bytes} (drains : s.Drains) (here : s.cursor = .ofBytes data s.cursor.offset) :
    (∀ e ∈ s.ends, data[e.2 - 1]? = some Message.endMark) ∧ data[s.stop - 1]? = some Frame.stopCommand := by
  induction drains with
  | stop opened given =>
    obtain ⟨passed, -⟩ := Wire.next_over_stop opened given
    rw [here, ← List.nil_append [_]] at passed
    rw [ends_of_end given, stop_of_end given]
    exact ⟨nofun, passed.last⟩
  | @frame s later f given rest ih =>
    obtain ⟨-, -, stored, -, passed⟩ := Wire.next_over given
    obtain ⟨front, ending⟩ := Wire.exists_encode stored
    have there : later.cursor = .ofBytes data later.cursor.offset := by
      obtain ⟨n, moved⟩ := cursor_next s
      rw [given, here, Cursor.advance_ofBytes] at moved
      rw [show later.cursor = _ from moved]
      rfl
    obtain ⟨others, stop⟩ := ih there
    rw [here, ending] at passed
    rw [ends_of_frame given, stop_of_frame given]
    exact ⟨List.forall_mem_cons.mpr ⟨passed.last, others⟩, stop⟩

/-- Behind the stop command, the limit changes nothing. -/
theorem Drains.transcript_cut (drains : s.Drains) (kept : s.stop ≤ limit) :
    (s.cut limit).transcript = s.transcript := by
  induction drains with
  | stop opened given =>
    rw [stop_of_end given] at kept
    rw [transcript_of_end given, transcript_of_end (next_cut_of_end opened given kept)]
  | @frame s later f given rest ih =>
    rw [stop_of_frame given] at kept
    have within : later.cursor.offset ≤ limit := Nat.le_trans later.offset_le_stop kept
    rw [transcript_of_frame given, transcript_of_frame (next_cut_of_frame given within), ih kept]

/-- In front of it, the frames that end within the limit are left, and then the data are found to be at fault. -/
theorem Drains.transcript_cut_short (drains : s.Drains) (begun : s.cursor.offset ≤ limit) (short : limit < s.stop) :
    let whole := (s.ends.filter fun e => e.2 ≤ limit).map Prod.fst
    whole <+: s.transcript.frames ∧
      ∃ fault, fault.category = .corruptData ∧ (s.cut limit).transcript = ⟨whole, some fault⟩ := by
  induction drains with
  | stop opened given =>
    rw [stop_of_end given] at short
    obtain ⟨fault, left, failed, category⟩ := next_cut_short opened given nofun begun short
    rw [ends_of_end given]
    exact ⟨List.nil_prefix, fault, category, transcript_of_fault failed⟩
  | @frame s later f given rest ih =>
    rw [ends_of_frame given]
    by_cases within : later.cursor.offset ≤ limit
    · rw [stop_of_frame given] at short
      obtain ⟨front, fault, category, left⟩ := ih within short
      rw [List.filter_cons_of_pos (by simpa using within), List.map_cons, transcript_of_frame given]
      refine ⟨List.cons_prefix_cons.mpr ⟨rfl, front⟩, fault, category, ?_⟩
      rw [transcript_of_frame (next_cut_of_frame given within), left]
    · -- the later frames end behind this one
      have beyond : ∀ e ∈ (f, later.cursor.offset) :: later.ends, ¬ e.2 ≤ limit := by
        intro e mem
        rcases List.mem_cons.mp mem with rfl | mem
        · exact within
        · have further := offset_le_ends mem
          omega
      obtain ⟨opened, -⟩ := next_eq_frame.mp given
      obtain ⟨fault, left, failed, category⟩ := next_cut_short opened given nofun begun (Nat.lt_of_not_le within)
      rw [List.filter_eq_nil_iff.mpr (by simpa using beyond)]
      exact ⟨List.nil_prefix, fault, category, transcript_of_fault failed⟩

end FrameStream
end DemoTape
