/-
# Streams among other bytes

What a stream yields depends on what stands from its start to where it ends, and on nothing else
(`yields_in_context`). With more bytes behind, it yields the same frames first. If it has ended at the stop command,
or for a reason other than that bytes were lacking (`Fault.lacksBytes`), it ends in the same way. With more bytes in
front, it yields the same, placed behind them.

For bytes behind, the shorter stream is the longer one without the bytes from a limit on: what it reads, the longer one
reads too (`next_of_cut_frame`). For bytes in front, every decoder does the same behind them (`Decoder.frame_behind`).
-/
import DemoTape.Proofs.Decoding.Behind
import DemoTape.Proofs.Frames.Truncation

namespace DemoTape
set_option autoImplicit false

/-- Whether a fault is one that more bytes at the end may mend. -/
def Fault.lacksBytes : Fault → Bool
  | .endOfData _ _ _ => true
  | .corrupt _ .missingStop => true
  | _ => false

namespace FrameStream
variable {s : FrameStream} {limit : Nat}

/-! ## More bytes behind -/

/-- A pull without the bytes from the limit on finds that bytes are lacking, or it is the pull on all of them. -/
theorem next_of_cut (s : FrameStream) (limit : Nat) :
    (∃ fault later, (s.cut limit).next = (some (.error fault), later) ∧ fault.lacksBytes) ∨
      (s.cut limit).next = (s.next.1, s.next.2.cut limit) := by
  by_cases ended : s.finished
  · right
    rw [next_of_finished ended, next_of_finished (s := s.cut limit) ended]
  by_cases left : s.cursor.offset < min limit s.cursor.size
  · have alike := Decoder.shortened_frame s.lastTick left
    have short : Decoder.frame (s.cut limit).lastTick (s.cut limit).cursor =
        Decoder.frame s.lastTick (s.cursor.cut limit) := rfl
    rw [next, if_neg (show ¬ (s.cut limit).finished from ended), short, next, if_neg ended]
    generalize Decoder.frame s.lastTick s.cursor = whole,
      Decoder.frame s.lastTick (s.cursor.cut limit) = part at alike ⊢
    cases alike with
    | @ok found after within => cases found <;> exact .inr rfl
    | error => exact .inr rfl
    | endOfData => exact .inl ⟨_, _, rfl, rfl⟩
  · have atEnd : (s.cursor.cut limit).atEnd := decide_eq_true (Nat.le_of_not_lt left)
    exact .inl ⟨_, _, next_of_error (s := s.cut limit) (Bool.eq_false_iff.mpr ended) (Decoder.frame_atEnd atEnd), rfl⟩

/-- Without the bytes from a limit on there are the first of the frames, and all of them with the same end, unless the
end is that bytes are lacking. -/
theorem transcript_of_cut (s : FrameStream) (limit : Nat) :
    let short := (s.cut limit).transcript
    short.frames <+: s.transcript.frames ∧
      ((∀ fault ∈ short.fault, fault.lacksBytes = false) → s.transcript = short) := by
  rcases next_of_cut s limit with ⟨fault, later, failed, lacking⟩ | same
  · rw [transcript_of_fault failed]
    exact ⟨List.nil_prefix, fun enough => by simp [enough fault rfl] at lacking⟩
  match given : s.next with
  | (some (.ok f), later) =>
    rw [given] at same
    obtain ⟨-, -, less⟩ := next_frame given
    obtain ⟨front, whole⟩ := transcript_of_cut later limit
    rw [transcript_of_frame same, transcript_of_frame given]
    exact ⟨List.cons_prefix_cons.mpr ⟨rfl, front⟩, fun enough => by rw [whole enough]⟩
  | (some (.error fault), later) =>
    rw [given] at same
    rw [transcript_of_fault same, transcript_of_fault given]
    exact ⟨List.nil_prefix, fun _ => rfl⟩
  | (none, later) =>
    rw [given] at same
    rw [transcript_of_end same, transcript_of_end given]
    exact ⟨List.nil_prefix, fun _ => rfl⟩
termination_by s.cursor.remaining

/-! ## More bytes in front -/

/-- The stream with so many bytes more in front of its bytes. -/
def behind (s : FrameStream) (n : Nat) : FrameStream := { s with cursor := s.cursor.behind n }

theorem ofBytes_append (front data : Bytes) (start : Nat) :
    ofBytes (front ++ data) (front.length + start) = (ofBytes data start).behind front.length := by
  rw [ofBytes, Cursor.ofBytes_append]
  rfl

theorem next_behind (s : FrameStream) (n : Nat) :
    (s.behind n).next = (s.next.1.map fun
      | .ok f => .ok (f.behind n)
      | .error fault => .error (fault.behind n), s.next.2.behind n) := by
  by_cases ended : s.finished
  · rw [next_of_finished ended, next_of_finished (s := s.behind n) ended]
    rfl
  · have read : Decoder.frame (s.behind n).lastTick (s.behind n).cursor = _ := Decoder.frame_behind s.lastTick s.cursor
    rw [next, next, if_neg ended, if_neg (show ¬ (s.behind n).finished from ended), read]
    cases Decoder.frame s.lastTick s.cursor with
    | error fault left => rfl
    | ok found after => cases found <;> rfl

theorem transcript_behind (s : FrameStream) (n : Nat) : (s.behind n).transcript =
    ⟨s.transcript.frames.map (Frame.behind n), s.transcript.fault.map (Fault.behind n)⟩ := by
  have moved := next_behind s n
  match given : s.next with
  | (some (.ok f), later) =>
    rw [given] at moved
    obtain ⟨-, -, less⟩ := next_frame given
    rw [transcript_of_frame moved, transcript_of_frame given, transcript_behind later n]
    rfl
  | (some (.error fault), later) =>
    rw [given] at moved
    rw [transcript_of_fault moved, transcript_of_fault given]
    rfl
  | (none, later) =>
    rw [given] at moved
    rw [transcript_of_end moved, transcript_of_end given]
    rfl
termination_by s.cursor.remaining

/-! ## Both -/

/-- **What a stream yields does not depend on the bytes around it.** A stream yields some frames and then, perhaps, a
fault. With more bytes behind, it yields these frames before anything else, and nothing else if it has not ended because
bytes were lacking. With more bytes in front, it yields the same with all places behind them. -/
theorem yields_in_context (data : Bytes) (start : Nat) :
    ∃ (frames : List Frame) (ending : Option Fault),
      Pulls.Yields next (ofBytes data start) (frames.map .ok ++ ending.toList.map .error) ∧
      (∀ extra : Bytes, ∃ (more : List Frame) (ending' : Option Fault),
        Pulls.Yields next (ofBytes (data ++ extra) start)
          ((frames ++ more).map .ok ++ ending'.toList.map .error) ∧
        ((∀ fault ∈ ending, fault.lacksBytes = false) → more = [] ∧ ending' = ending)) ∧
      ∀ front : Bytes, Pulls.Yields next (ofBytes (front ++ data) (front.length + start))
        ((frames.map (Frame.behind front.length)).map .ok ++
          (ending.map (Fault.behind front.length)).toList.map .error) := by
  refine ⟨_, _, (ofBytes data start).yields_transcript, fun extra => ?_, fun front => ?_⟩
  · have short : (ofBytes (data ++ extra) start).cut data.length = ofBytes data start := by
      rw [← ofBytes_take, List.take_left]
    obtain ⟨⟨more, whole⟩, same⟩ := transcript_of_cut (ofBytes (data ++ extra) start) data.length
    rw [short] at whole same
    refine ⟨more, (ofBytes (data ++ extra) start).transcript.fault, ?_, fun enough => ?_⟩
    · rw [whole]
      exact yields_transcript _
    · rw [same enough] at whole ⊢
      exact ⟨List.append_right_eq_self.mp whole, rfl⟩
  · have moved := (ofBytes (front ++ data) (front.length + start)).yields_transcript
    rw [ofBytes_append, transcript_behind] at moved
    rw [ofBytes_append]
    exact moved

/-- A frame without messages, and then a byte that is no command. -/
def strayBytes : Bytes := [0x02, 1, 0, 0, 0, 0, 0x05]

/-- A stop command behind the stray byte is not found, and bytes in front of the frame only put it off. -/
theorem yields_in_context_stray :
    Pulls.Yields next (ofBytes (strayBytes ++ [Frame.stopCommand]) 0)
        [.ok ⟨1, [], 0⟩, .error (.corrupt 6 (.unknownCommand 5))] ∧
      Pulls.Yields next (ofBytes ([0x02, 0x02] ++ strayBytes) 2)
        [.ok ⟨1, [], 2⟩, .error (.corrupt 8 (.unknownCommand 5))] := by
  have transcript : (ofBytes strayBytes 0).transcript = ⟨[⟨1, [], 0⟩], some (.corrupt 6 (.unknownCommand 5))⟩ := by
    decide +kernel
  have given := (ofBytes strayBytes 0).yields_transcript
  rw [transcript] at given
  obtain ⟨frames, ending, yields, behind, front⟩ := yields_in_context strayBytes 0
  obtain ⟨rfl, rfl⟩ := items_inj (yields.unique given)
  obtain ⟨more, ending', longer, same⟩ := behind [Frame.stopCommand]
  obtain ⟨rfl, rfl⟩ := same (by simp [Fault.lacksBytes])
  exact ⟨longer, front [0x02, 0x02]⟩

end FrameStream
end DemoTape
