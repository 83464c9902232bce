/-
# Transcripts are what streams yield

`FrameStream.transcript` pulls a number of times that depends on the bytes that are left. It is all that the
stream yields (`yields_transcript`): a frame takes bytes, so the pulls are never too few. The ticks of its
frames ascend (`ticks_ascend`).
-/
import DemoTape.Proofs.Decoding.Forward
import DemoTape.Proofs.Pulls

namespace DemoTape
set_option autoImplicit false

/-- What a stream with this transcript gives, pull after pull. -/
def Transcript.items (t : Transcript) : List (Except Fault Frame) :=
  t.frames.map .ok ++ t.fault.toList.map .error

/-- What is given before a fault, and the fault, can be told from what is given. -/
theorem items_inj {α : Type} {found items : List α} {fault ending : Option Fault}
    (same : found.map Except.ok ++ fault.toList.map .error = items.map Except.ok ++ ending.toList.map .error) :
    found = items ∧ fault = ending := by
  have values (given : List α) (last : Option Fault) :
      (given.map Except.ok ++ last.toList.map Except.error).filterMap Except.toOption = given := by
    cases last <;> simp [List.filterMap_append, List.filterMap_map, Function.comp_def, Except.toOption]
  obtain rfl : found = items := by rw [← values found fault, same, values]
  have last := List.append_cancel_left same
  cases fault <;> cases ending <;> simp_all

/-- Items among which there is no fault. -/
theorem eq_of_items {α : Type} {found items : List α} {fault : Option Fault}
    (sound : found.map Except.ok ++ fault.toList.map .error = items.map Except.ok) :
    found = items ∧ fault = none :=
  items_inj (sound.trans (List.append_nil _).symm)

/-- Without a fault among its items, a transcript is just its frames. -/
theorem Transcript.eq_of_items {t : Transcript} {frames : List Frame} (sound : t.items = frames.map .ok) :
    t = ⟨frames, none⟩ := by
  obtain ⟨read, fault⟩ := t
  obtain ⟨rfl, rfl⟩ := DemoTape.eq_of_items sound
  rfl

namespace FrameStream

/-- A pull that gives a frame goes on behind it. -/
theorem next_frame {s later : FrameStream} {f : Frame} (given : s.next = (some (.ok f), later)) :
    (∀ l ∈ s.lastTick, l < f.tick) ∧ later.lastTick = some f.tick ∧
      later.cursor.remaining < s.cursor.remaining := by
  unfold next at given
  split at given
  · cases given
  split at given
  · rename_i frame after read
    cases given
    obtain ⟨-, ascends, n, positive, within, rfl⟩ := Decoder.frame_ok read
    refine ⟨ascends, rfl, ?_⟩
    rw [Cursor.remaining_advance]
    omega
  · cases given
  · cases given

/-- The pulls that a transcript is made of can be more. -/
theorem pull_of_lt {m n : Nat} {s : FrameStream} (enough : s.cursor.remaining < m)
    (also : s.cursor.remaining < n) : s.pull m = s.pull n := by
  induction m generalizing n s with
  | zero => omega
  | succ m ih =>
    obtain ⟨n, rfl⟩ := Nat.exists_eq_succ_of_ne_zero (Nat.ne_of_gt (Nat.zero_lt_of_lt also))
    rw [pull, pull]
    split
    · rename_i frame later given
      obtain ⟨-, -, less⟩ := next_frame given
      rw [ih (n := n) (by omega) (by omega)]
    · rfl
    · rfl

theorem transcript_of_frame {s later : FrameStream} {f : Frame} (given : s.next = (some (.ok f), later)) :
    s.transcript = { later.transcript with frames := f :: later.transcript.frames } := by
  obtain ⟨-, -, less⟩ := next_frame given
  rw [transcript, pull, given]
  dsimp only
  rw [pull_of_lt less (Nat.lt_succ_self _)]
  rfl

theorem transcript_of_fault {s later : FrameStream} {fault : Fault}
    (given : s.next = (some (.error fault), later)) : s.transcript = ⟨[], some fault⟩ := by
  rw [transcript, pull, given]

theorem transcript_of_end {s later : FrameStream} (given : s.next = (none, later)) :
    s.transcript = ⟨[], none⟩ := by
  rw [transcript, pull, given]

theorem transcript_of_finished {s : FrameStream} (ended : s.finished) : s.transcript = ⟨[], none⟩ :=
  transcript_of_end (next_of_finished ended)

/-- A stream yields its transcript. -/
theorem yields_transcript (s : FrameStream) : Pulls.Yields next s s.transcript.items := by
  refine Pulls.yields_of_view (fun s => s.transcript.items) (fun s => ?_) (fun s => ?_) s
  all_goals
    have ended := finished_next (s := s)
    match given : s.next with
    | (some (.ok frame), later) => simp [transcript_of_frame given, Transcript.items]
    | (some (.error fault), later) =>
      rw [given] at ended
      simp [transcript_of_fault given, transcript_of_finished (ended nofun), Transcript.items]
    | (none, later) =>
      rw [given] at ended
      simp [transcript_of_end given, transcript_of_finished (ended nofun), Transcript.items]

/-- The ticks of a stream ascend, from the last one on. -/
theorem ticks_ascend_pull (n : Nat) (s : FrameStream) :
    (∀ f ∈ (s.pull n).frames, ∀ l ∈ s.lastTick, l < f.tick) ∧
      (s.pull n).frames.Pairwise fun f g => f.tick < g.tick := by
  induction n generalizing s with
  | zero => exact ⟨nofun, .nil⟩
  | succ n ih =>
    rw [pull]
    split
    · rename_i frame later given
      obtain ⟨after, last, -⟩ := next_frame given
      obtain ⟨following, ascending⟩ := ih later
      have follows : ∀ g ∈ (later.pull n).frames, frame.tick < g.tick := fun g member =>
        following g member frame.tick last
      refine ⟨fun f member l mem => ?_, List.pairwise_cons.mpr ⟨follows, ascending⟩⟩
      rcases List.mem_cons.mp member with rfl | member
      · exact after l mem
      · exact UInt32.lt_trans (after l mem) (follows f member)
    · exact ⟨nofun, .nil⟩
    · exact ⟨nofun, .nil⟩

theorem ticks_ascend (s : FrameStream) : s.transcript.frames.Pairwise fun f g => f.tick < g.tick :=
  (ticks_ascend_pull _ s).2

end FrameStream
end DemoTape
