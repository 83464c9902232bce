/-
# Streams in order

A pull does one of three things (`Pulled`): it finds the stream ended and leaves it so, it takes six bytes at least
for a frame, or it ends the stream, with a fault or without one. What all pulls have in common follows from this,
whatever the bytes are: frames stand one behind the other, their ticks ascend, they are counted, they cannot be more
than the bytes allow for, and nothing follows the end (`orderly`).
-/
import DemoTape.Proofs.Frames.Truncation

namespace DemoTape
namespace FrameStream
set_option autoImplicit false

/-! ## One pull -/

/-- What a pull can do to a stream. -/
inductive Pulled (s : FrameStream) : Option (Except Fault Frame) × FrameStream → Prop
  | ended (ended : s.finished) : Pulled s (none, s)
  | frame {f : Frame} {n : Nat} (opened : s.finished = false) (placed : f.offset = s.cursor.offset)
      (ascends : ∀ l ∈ s.lastTick, l < f.tick) (six : 6 ≤ n) (within : n ≤ s.cursor.remaining) :
      Pulled s (some (.ok f),
        { s with cursor := s.cursor.advance n, lastTick := some f.tick, count := s.count + 1 })
  | last (found : Option Fault) {n : Nat} (opened : s.finished = false) (within : n ≤ s.cursor.remaining) :
      Pulled s (found.map .error, { s with cursor := s.cursor.advance n, finished := true })

/-- A frame takes its command, its tick and its end mark at least. -/
theorem six_le_encode (f : Wire.Frame) : 6 ≤ f.encode.length := by
  simp only [Wire.Frame.encode, List.length_append, List.length_cons, List.length_nil, Bytes.length_ofNat]
  omega

theorem pulled_next (s : FrameStream) : Pulled s s.next := by
  by_cases ended : s.finished
  · rw [next_of_finished ended]
    exact .ended ended
  have opened : s.finished = false := Bool.eq_false_iff.mpr ended
  rw [next, if_neg ended]
  cases read : Decoder.frame s.lastTick s.cursor with
  | error fault left =>
    obtain ⟨n, within, moved⟩ := Decoder.forward_frame s.lastTick s.cursor
    rw [Decoder.stand, read] at moved
    subst moved
    exact .last (some fault) opened within
  | ok found after => cases found with
    | none =>
      obtain ⟨n, within, rfl⟩ := (Decoder.forward_frame s.lastTick).of_ok read
      exact .last none opened within
    | some f =>
      obtain ⟨placed, ascends, -⟩ := Decoder.frame_ok read
      obtain ⟨-, stored, -, here, rfl⟩ := Wire.frame_over read
      have length := s.cursor.length_rest
      rw [here, List.length_append] at length
      exact .frame opened placed ascends (six_le_encode stored) (by unfold Cursor.remaining; omega)

variable {s later : FrameStream} {f : Frame}

/-! ## All pulls -/

theorem item_of_finished (ended : s.finished) (n : Nat) : Pulls.item next s n = none := by
  have fixed := next_of_finished ended
  rw [Pulls.item, Pulls.after_of_fixed (by rw [fixed]), fixed]

/-- A frame that comes later has a tick after the last one. -/
theorem last_lt_item {l : Tick} (last : l ∈ s.lastTick) {n : Nat} (given : Pulls.item next s n = some (.ok f)) :
    l < f.tick := by
  induction n generalizing s l with
  | zero =>
    have pulled := pulled_next s
    change s.next.1 = some (.ok f) at given
    generalize s.next = result at pulled given
    cases pulled with
    | ended => cases given
    | frame opened placed ascends =>
      cases given
      exact ascends l last
    | last found => cases found <;> cases given
  | succ n ih =>
    have pulled := pulled_next s
    change Pulls.item next s.next.2 n = some (.ok f) at given
    generalize s.next = result at pulled given
    cases pulled with
    | ended => exact ih last given
    | frame opened placed ascends => exact UInt32.lt_trans (ascends l last) (ih rfl given)
    | last =>
      rw [item_of_finished rfl] at given
      cases given

/-- The bytes that are left bound the number of pulls that give something. -/
theorem item_of_lt {n : Nat} (many : s.cursor.remaining / 6 < n) : Pulls.item next s n = none := by
  induction n generalizing s with
  | zero => cases many
  | succ n ih =>
    have pulled := pulled_next s
    show Pulls.item next s.next.2 n = none
    generalize s.next = result at pulled ⊢
    cases pulled with
    | ended ended => exact item_of_finished ended n
    | frame opened placed ascends six within => exact ih (by rw [Cursor.remaining_advance]; omega)
    | last => exact item_of_finished rfl n

/-- No pull reaches over the end of the bytes. -/
theorem offset_le_size (begun : s.cursor.offset ≤ s.cursor.size) (n : Nat) :
    (Pulls.after next n s).cursor.size = s.cursor.size ∧ (Pulls.after next n s).cursor.offset ≤ s.cursor.size := by
  induction n generalizing s with
  | zero => exact ⟨rfl, begun⟩
  | succ n ih =>
    obtain ⟨k, within, moved⟩ : ∃ k ≤ s.cursor.remaining, s.next.2.cursor = s.cursor.advance k := by
      have pulled := pulled_next s
      generalize s.next = result at pulled ⊢
      cases pulled with
      | ended => exact ⟨0, Nat.zero_le _, (Cursor.advance_zero _).symm⟩
      | frame opened placed ascends six within => exact ⟨_, within, rfl⟩
      | last found opened within => exact ⟨_, within, rfl⟩
    unfold Cursor.remaining at within
    have further := ih (s := s.next.2) (by rw [moved, Cursor.offset_advance, Cursor.size_advance]; omega)
    rwa [moved, Cursor.size_advance] at further

theorem next_after (n : Nat) (s : FrameStream) :
    (Pulls.after next n s).next = (Pulls.item next s n, Pulls.after next (n + 1) s) := by
  rw [Pulls.after_add n 1 s]
  rfl

/-- A pull that gives a frame goes from where it begins to where the next one may begin. -/
theorem after_of_item {n : Nat} (given : Pulls.item next s n = some (.ok f)) :
    f.offset = (Pulls.after next n s).cursor.offset ∧ f.offset + 6 ≤ (Pulls.after next (n + 1) s).cursor.offset ∧
      (Pulls.after next (n + 1) s).lastTick = some f.tick := by
  have pulled := pulled_next (Pulls.after next n s)
  rw [next_after] at pulled
  generalize Pulls.item next s n = item, Pulls.after next (n + 1) s = later at pulled given ⊢
  cases pulled with
  | ended => cases given
  | frame opened placed ascends six within =>
    cases given
    refine ⟨placed, ?_, rfl⟩
    rw [placed, Cursor.offset_advance]
    omega
  | last found => cases found <;> cases given

/-- The frames are counted. -/
theorem count_after (n : Nat) (s : FrameStream) : (Pulls.after next n s).count =
    s.count + (List.range n).countP fun m => (Pulls.item next s m).any Except.isOk := by
  induction n with
  | zero => rfl
  | succ n ih =>
    have pulled := pulled_next (Pulls.after next n s)
    rw [next_after] at pulled
    rw [List.range_succ, List.countP_append, ← Nat.add_assoc, ← ih, List.countP_singleton]
    generalize Pulls.item next s n = given, Pulls.after next (n + 1) s = later at pulled ⊢
    cases pulled with
    | ended | frame => rfl
    | last found => cases found <;> rfl

/-- A pull that gives no frame is the last that changes anything. -/
theorem ends_of_item {n : Nat} (no_frame : ∀ f, Pulls.item next s n ≠ some (.ok f)) :
    (Pulls.after next (n + 1) s).finished ∧ ∀ m, n < m →
      Pulls.item next s m = none ∧ Pulls.after next m s = Pulls.after next (n + 1) s := by
  have ended : (Pulls.after next (n + 1) s).finished := by
    have ended := finished_next (s := Pulls.after next n s)
    rw [next_after] at ended
    exact ended no_frame
  refine ⟨ended, fun m later => ?_⟩
  obtain ⟨k, rfl⟩ := Nat.exists_eq_add_of_le later
  have fixed := next_of_finished ended
  have still : Pulls.after next (n + 1 + k) s = Pulls.after next (n + 1) s := by
    rw [Pulls.after_add, Pulls.after_of_fixed (by rw [fixed])]
  exact ⟨by rw [Pulls.item, still, fixed], still⟩

/-- **Every stream is in order, whatever its bytes are.** Ticks ascend; every frame begins where the stream stood, the
first one at the start, and takes six bytes at least; so no pull gives anything from a number on that the bytes bound;
the frames are counted; the stream never goes back, and never beyond the end of its bytes unless it began there; there
is at most one fault, and the stream is not changed any more by a pull behind one that gave a fault or nothing. -/
theorem orderly (data : Bytes) (start : Nat) :
    let item := Pulls.item next (ofBytes data start)
    let state n := Pulls.after next n (ofBytes data start)
    (∀ m n f g, m < n → item m = some (.ok f) → item n = some (.ok g) → f.tick < g.tick) ∧
    (state 0).cursor.offset = start ∧
    (∀ n f, item n = some (.ok f) →
      f.offset = (state n).cursor.offset ∧ f.offset + 6 ≤ (state (n + 1)).cursor.offset) ∧
    (∀ n, (data.length - start) / 6 + 2 ≤ n + 1 → item n = none) ∧
    (∀ n, (state n).count = (List.range n).countP fun m => (item m).any Except.isOk) ∧
    (∀ m n, m ≤ n → (state m).cursor.offset ≤ (state n).cursor.offset) ∧
    (start ≤ data.length → ∀ n, (state n).cursor.offset ≤ data.length) ∧
    (∀ m n fault fault', item m = some (.error fault) → item n = some (.error fault') → m = n) ∧
    ∀ n, (∀ f, item n ≠ some (.ok f)) →
      (state (n + 1)).finished ∧ ∀ m, n < m → item m = none ∧ state m = state (n + 1) := by
  intro item state
  have once {m n : Nat} {fault fault' : Fault} (first : item m = some (.error fault))
      (second : item n = some (.error fault')) : n ≤ m := by
    refine Nat.le_of_not_lt fun later => ?_
    have nothing := ((ends_of_item (by rw [show Pulls.item next _ m = _ from first]; nofun)).2 n later).1
    cases nothing.symm.trans second
  refine ⟨?_, rfl, ?_, ?_, ?_, ?_, ?_, ?_, fun n no_frame => ends_of_item no_frame⟩
  · intro m n f g later first second
    obtain ⟨k, rfl⟩ := Nat.exists_eq_add_of_lt later
    have there : Pulls.item next (state (m + 1)) k = some (.ok g) := by
      rw [← second]
      show (Pulls.after next k (Pulls.after next (m + 1) _)).next.1 = (Pulls.after next (m + k + 1) _).next.1
      rw [← Pulls.after_add, Nat.add_right_comm]
    exact last_lt_item (after_of_item first).2.2 there
  · intro n f given
    obtain ⟨placed, taken, -⟩ := after_of_item given
    exact ⟨placed, taken⟩
  · intro n many
    have left : (ofBytes data start).cursor.remaining = data.length - start := rfl
    exact item_of_lt (by omega)
  · intro n
    rw [count_after]
    exact Nat.zero_add _
  · intro m n le
    obtain ⟨k, rfl⟩ := Nat.exists_eq_add_of_le le
    show (Pulls.after next m _).cursor.offset ≤ (Pulls.after next (m + k) _).cursor.offset
    rw [Pulls.after_add]
    exact offset_le_after k _
  · intro within n
    exact (offset_le_size (s := ofBytes data start) within n).2
  · intro m n fault fault' first second
    exact Nat.le_antisymm (once second first) (once first second)

/-- A frame without messages, and a part of a second one. -/
def tornBytes : Bytes := [0x02, 1, 0, 0, 0, 0, 0x02, 2, 0]

/-- Behind the fault in the second frame comes nothing. -/
theorem orderly_torn :
    Pulls.item next (ofBytes tornBytes 0) 1 = some (.error (.endOfData 7 4 2)) ∧
      (∀ m, 1 < m → Pulls.item next (ofBytes tornBytes 0) m = none) ∧
      ∀ m, (Pulls.after next m (ofBytes tornBytes 0)).cursor.offset ≤ 9 := by
  have failed : Pulls.item next (ofBytes tornBytes 0) 1 = some (.error (.endOfData 7 4 2)) := by decide +kernel
  obtain ⟨-, -, -, -, -, -, within, -, ends⟩ := orderly tornBytes 0
  obtain ⟨-, later⟩ := ends 1 (by rw [failed]; nofun)
  exact ⟨failed, fun m beyond => (later m beyond).1, within (Nat.zero_le _)⟩

end FrameStream
end DemoTape
