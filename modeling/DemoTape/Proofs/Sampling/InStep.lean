/-
# A sampler does not run ahead of its records

When a sampler has given a record, its scene is the one that the record was taken from: the frames up to the tick of
the record have been decoded and applied, and no other one; and the records that are still pending are those behind
it in the evaluation of the query on this scene. When it has given a fault or nothing, it has ended, and no pull
changes it any more (`in_step`).

An open sampler stands behind some frames (`Stands`). An advance takes it behind one frame more or ends it, and so a
pull that gives a record leaves it behind the frames of this record (`inStep_pull`). That the records come in the
order of their ticks, and within a tick of their entities, is seen on the batch (`Samples.batch_ordered`).
-/
import DemoTape.Proofs.Query.Order
import DemoTape.Proofs.Sampling.Batch
import DemoTape.Proofs.Scene.History

namespace DemoTape
set_option autoImplicit false

/-! ## The order of the records -/

namespace Record

/-- Whether a record may come before another one: its tick is earlier, or the same, and then its entity is not
later. -/
def Before (a b : Record) : Prop := a.tick ≤ b.tick ∧ (a.tick = b.tick → a.entity ≤ b.entity)

theorem Before.refl (r : Record) : r.Before r := ⟨UInt32.le_refl _, fun _ => UInt32.le_refl _⟩

end Record

theorem Query.records_ordered (q : Query) (scene : Scene) (tick : Tick) :
    (q.records scene tick).Pairwise Record.Before := by
  refine List.pairwise_map.mpr ((q.evaluate_ordered scene.entities).imp fun le => ?_)
  exact ⟨UInt32.le_refl _, fun _ => le⟩

theorem Samples.batch_ordered (query : Query) (period : UInt32) {t : Transcript}
    (ascending : t.frames.Pairwise fun f g => f.tick < g.tick) :
    (batch query period t).records.Pairwise Record.Before := by
  have steps := ascending.sublist (history_sublist Scene.empty t.frames)
  rw [List.pairwise_map] at steps
  refine List.pairwise_flatMap.mpr ⟨fun step _ => query.records_ordered step.2 step.1.tick, ?_⟩
  refine (steps.sublist List.filter_sublist).imp ?_
  intro first second less a mema b memb
  have left : a.tick = first.1.tick := Query.tick_of_mem_records mema
  have right : b.tick = second.1.tick := Query.tick_of_mem_records memb
  rw [← left, ← right] at less
  exact ⟨UInt32.le_of_lt less, fun same => absurd same (UInt32.ne_of_lt less)⟩

namespace Sampler

/-! ## Where an open sampler stands -/

/-- The records of a query on a scene, at the tick of the scene. Before the first frame there are none. -/
def recordsOf (query : Query) (scene : Scene) : List Record := scene.tick.toList.flatMap (query.records scene)

/-- Whether an open sampler has decoded and applied just these frames of a stream, and its pending records are the
last ones of its scene. -/
structure Stands (body : FrameStream) (query : Query) (read : List Frame) (s : Sampler) : Prop where
  opened : s.finished = false
  compiled : s.query = query
  decoded : s.frames = Pulls.after FrameStream.next read.length body
  front : body.transcript.frames = read ++ s.frames.transcript.frames
  applied : Scene.empty.replay read = .ok s.scene
  pending : s.pending <:+ recordsOf query s.scene

variable {body : FrameStream} {query : Query} {read : List Frame} {s later : Sampler}

theorem stands_initial (recording : Recording) (query : Query) (period : Period) :
    Stands recording.stream query [] (initial recording query period) where
  opened := rfl
  compiled := rfl
  decoded := rfl
  front := rfl
  applied := rfl
  pending := List.suffix_rfl

/-- A frame takes the sampler one frame further, whether its tick is on the grid or not. -/
theorem Stands.frame {frame : Frame} {frames : FrameStream} {scene : Scene} (stands : Stands body query read s)
    (given : s.frames.next = (some (.ok frame), frames)) (applied : s.scene.apply frame = (none, scene))
    {pending : List Record} (few : pending <:+ s.query.records scene frame.tick) (origin : Option Tick)
    (sampled : Nat) : Stands body query (read ++ [frame]) { s with frames, scene, origin, pending, sampled } where
  opened := stands.opened
  compiled := stands.compiled
  decoded := by
    rw [List.length_append, List.length_singleton, Pulls.after_add, ← stands.decoded, Pulls.after, given]
    rfl
  front := by
    rw [stands.front, FrameStream.transcript_of_frame given, List.append_assoc]
    rfl
  applied := by
    rw [Scene.replay_append, stands.applied]
    exact Scene.replay_cons_ok.mpr ⟨scene, applied, rfl⟩
  pending := by
    obtain ⟨made, -, rfl⟩ := Scene.apply_ok.mp applied
    rw [stands.compiled] at few
    simpa [recordsOf] using few

/-- Whether a sampler has ended with nothing to give, or stands behind some frames. -/
def InStep (body : FrameStream) (query : Query) (s : Sampler) : Prop :=
  (s.finished ∧ s.pending = []) ∨ ∃ read, Stands body query read s

theorem Stands.advance (stands : Stands body query read s) (drained : s.pending = []) :
    InStep body query s.advance.2 := by
  unfold Sampler.advance
  match given : s.frames.next with
  | (none, frames) => exact .inl ⟨rfl, drained⟩
  | (some (.error fault), frames) => exact .inl ⟨rfl, drained⟩
  | (some (.ok frame), frames) =>
    dsimp only
    match applied : s.scene.apply frame with
    | (some fault, scene) => exact .inl ⟨rfl, drained⟩
    | (none, scene) =>
      dsimp only
      split
      · exact .inr ⟨_, stands.frame given applied List.suffix_rfl _ _⟩
      · have none_left : s.pending <:+ s.query.records scene frame.tick := drained ▸ List.nil_suffix
        exact .inr ⟨_, stands.frame given applied none_left _ _⟩

/-! ## Pulls -/

/-- A pull keeps in step, and with the record that it gives back in front, the sampler stood behind its frames. -/
theorem inStep_pull (rounds : Nat) (inStep : InStep body query s) :
    let pulled := s.pull rounds
    InStep body query pulled.2 ∧ ∀ r, pulled.1 = some (.ok r) →
      ∃ read, Stands body query read { pulled.2 with pending := r :: pulled.2.pending } := by
  induction rounds generalizing s with
  | zero =>
    refine ⟨inStep, ?_⟩
    rintro r ⟨⟩
  | succ rounds ih =>
    rw [pull]
    cases waiting : s.pending with
    | cons r pending =>
      have undrained : ¬ (s.finished ∧ s.pending = []) := by simp [waiting]
      obtain ⟨read, stands⟩ := inStep.resolve_left undrained
      have all : r :: pending <:+ recordsOf query s.scene := waiting ▸ stands.pending
      have others : pending <:+ recordsOf query s.scene := (List.suffix_cons r pending).trans all
      refine ⟨.inr ⟨read, { stands with pending := others }⟩, fun found given => ?_⟩
      cases given
      exact ⟨read, { stands with pending := all }⟩
    | nil =>
      dsimp only
      by_cases ended : s.finished
      · rw [if_pos ended]
        refine ⟨inStep, ?_⟩
        rintro r ⟨⟩
      · rw [if_neg ended]
        obtain ⟨read, stands⟩ := inStep.resolve_left fun done => ended done.1
        have further := stands.advance waiting
        rcases advanced : s.advance with ⟨_ | fault, later⟩
        · rw [advanced] at further
          exact ih further
        · rw [advanced] at further
          refine ⟨further, ?_⟩
          rintro r ⟨⟩

theorem inStep_after (n : Nat) (inStep : InStep body query s) : InStep body query (Pulls.after next n s) := by
  induction n generalizing s with
  | zero => exact inStep
  | succ n ih => exact ih (inStep_pull _ inStep).1

/-! ## What a record says about the scene -/

theorem tick_of_mem_recordsOf {scene : Scene} {r : Record} (mem : r ∈ recordsOf query scene) :
    scene.tick = some r.tick := by
  obtain ⟨tick, is, mem⟩ := List.mem_flatMap.mp mem
  rw [Query.tick_of_mem_records mem]
  exact Option.mem_toList.mp is

theorem recordsOf_eq {scene : Scene} {tick : Tick} (is : scene.tick = some tick) :
    recordsOf query scene = query.records scene tick := by simp [recordsOf, is]

/-- The frames that a sampler stands behind are those up to the tick of its scene. -/
theorem Stands.read_eq {tick : Tick} (stands : Stands body query read s) (is : s.scene.tick = some tick) :
    body.transcript.frames.filter (·.tick ≤ tick) = read := by
  have ascending := body.ticks_ascend
  have last := Scene.tick_replay stands.applied
  rw [is, show Scene.empty.tick = none from rfl, Option.or_none] at last
  obtain ⟨f, found, rfl⟩ := Option.map_eq_some_iff.mp last.symm
  obtain ⟨front, rfl⟩ := List.getLast?_eq_some_iff.mp found
  rw [stands.front] at ascending ⊢
  obtain ⟨before, -, behind⟩ := List.pairwise_append.mp ascending
  obtain ⟨-, -, earlier⟩ := List.pairwise_append.mp before
  have kept : ∀ g ∈ front ++ [f], decide (g.tick ≤ f.tick) := by
    intro g mem
    rcases List.mem_append.mp mem with mem | mem
    · exact decide_eq_true (UInt32.le_of_lt (earlier g mem f (List.mem_singleton_self f)))
    · rw [List.mem_singleton.mp mem]
      exact decide_eq_true (UInt32.le_refl _)
  have left : ∀ g ∈ s.frames.transcript.frames, ¬ decide (g.tick ≤ f.tick) := by
    intro g mem le
    exact UInt32.lt_irrefl _ (UInt32.lt_of_lt_of_le (behind f (by simp) g mem) (of_decide_eq_true le))
  rw [List.filter_append, List.filter_eq_self.mpr kept, List.filter_eq_nil_iff.mpr left, List.append_nil]

/-- What a pull that gives a record says about the sampler behind it. -/
theorem InStep.record {r : Record} (inStep : InStep body query s) (given : s.next.1 = some (.ok r)) :
    let later := s.next.2
    let done := body.transcript.frames.filter (·.tick ≤ r.tick)
    later.scene.tick = some r.tick ∧
      done <+: body.transcript.frames ∧ later.frames = Pulls.after FrameStream.next done.length body ∧
      Scene.empty.replay done = .ok later.scene ∧ (r :: later.pending) <:+ query.records later.scene r.tick := by
  obtain ⟨read, stands⟩ := (inStep_pull _ inStep).2 r given
  have is := tick_of_mem_recordsOf (stands.pending.subset (List.mem_cons_self ..))
  have done := stands.read_eq is
  dsimp only
  rw [done]
  refine ⟨is, ⟨_, stands.front.symm⟩, stands.decoded, stands.applied, ?_⟩
  have pending := stands.pending
  rw [recordsOf_eq is] at pending
  exact pending

/-- A fault is found only when nothing is pending. -/
theorem drained_of_fault {fault : Fault} (given : s.next.1 = some (.error fault)) : s.pending = [] := by
  cases waiting : s.pending with
  | nil => rfl
  | cons r pending =>
    rw [next, pull, waiting] at given
    cases given

/-! ## The end -/

theorem next_of_ended (ended : s.finished) (drained : s.pending = []) : s.next = (none, s) := by
  rw [next, pull, drained]
  exact if_pos ended

/-- A pull without a record leaves a sampler that has ended. -/
theorem InStep.ended (inStep : InStep body query s) (no_record : ∀ r, s.next.1 ≠ some (.ok r)) :
    s.next.2.next = (none, s.next.2) := by
  have ended := (took_next s).finished no_record
  rcases (inStep_pull _ inStep).1 with ⟨-, drained⟩ | ⟨read, stands⟩
  · exact next_of_ended ended drained
  · exact absurd ended (Bool.eq_false_iff.mp stands.opened)

/-- Behind a pull without a record, nothing is given and nothing changes. -/
theorem InStep.fused (inStep : InStep body query s) {n m : Nat} (no_record : ∀ r, Pulls.item next s n ≠ some (.ok r))
    (behind : n < m) : Pulls.item next s m = none ∧ Pulls.after next m s = Pulls.after next (n + 1) s := by
  have ended := (inStep_after n inStep).ended no_record
  obtain ⟨k, rfl⟩ := Nat.exists_eq_add_of_le (Nat.succ_le_of_lt behind)
  have one : Pulls.after next (n + 1) s = (Pulls.after next n s).next.2 := Pulls.after_add n 1 s
  have fixed : Pulls.after next (n + 1 + k) s = (Pulls.after next n s).next.2 := by
    rw [Pulls.after_add, one, Pulls.after_of_fixed (by rw [ended])]
  refine ⟨?_, fixed.trans one.symm⟩
  show (Pulls.after next (n + 1 + k) s).next.1 = none
  rw [fixed, ended]

/-- The records come in order. -/
theorem before_of_items {m n : Nat} {a b : Record} (ordered : s.rest.records.Pairwise Record.Before) (le : m ≤ n)
    (first : Pulls.item next s m = some (.ok a)) (second : Pulls.item next s n = some (.ok b)) : a.Before b := by
  have record {i : Nat} {r : Record} (given : Pulls.item next s i = some (.ok r)) : s.rest.records[i]? = some r := by
    rw [s.yields_rest, Samples.items] at given
    by_cases inside : i < s.rest.records.length
    · rw [List.getElem?_append_left (by rwa [List.length_map]), List.getElem?_map] at given
      obtain ⟨found, is, same⟩ := Option.map_eq_some_iff.mp given
      cases same
      exact is
    · rw [List.getElem?_append_right (by rw [List.length_map]; omega)] at given
      simpa using List.mem_of_getElem? given
  rcases Nat.lt_or_eq_of_le le with less | rfl
  · obtain ⟨inside, rfl⟩ := List.getElem?_eq_some_iff.mp (record first)
    obtain ⟨further, rfl⟩ := List.getElem?_eq_some_iff.mp (record second)
    exact List.pairwise_iff_getElem.mp ordered m n inside further less
  · cases (record first).symm.trans (record second)
    exact .refl a

/-- **A sampler keeps in step with its records, and has an end.** Let a sampler be built from these bytes, and let
the stream behind the header be its `body`. When a pull has given a record, the scene is at the tick of the record;
just the frames up to that tick have been decoded and applied; and the record, with those pending, is the end of what
the query gives on the scene. When a pull gives a fault, nothing was pending before it. There is one fault at most.
Behind a pull without a record, every pull gives nothing and changes nothing. And the records come in the order of
their ticks, those of a tick in the order of their entities. -/
theorem in_step {data : Bytes} {path : String} {ticks : UInt32} {s : Sampler}
    (built : ofBytes data path ticks = .ok s) :
    let body := FrameStream.ofBytes data Header.size
    (∀ n r, Pulls.item next s n = some (.ok r) →
      let after := Pulls.after next (n + 1) s
      let done := body.transcript.frames.filter (·.tick ≤ r.tick)
      after.scene.tick = some r.tick ∧
        done <+: body.transcript.frames ∧ after.frames = Pulls.after FrameStream.next done.length body ∧
        Scene.empty.replay done = .ok after.scene ∧
        (r :: after.pending) <:+ s.query.records after.scene r.tick) ∧
      (∀ n fault, Pulls.item next s n = some (.error fault) → (Pulls.after next n s).pending = []) ∧
      (∀ m n left right, Pulls.item next s m = some (.error left) → Pulls.item next s n = some (.error right) →
        m = n) ∧
      (∀ n, (∀ r, Pulls.item next s n ≠ some (.ok r)) → ∀ m, n < m →
        Pulls.item next s m = none ∧ Pulls.after next m s = Pulls.after next (n + 1) s) ∧
      ∀ m n a b, m ≤ n → Pulls.item next s m = some (.ok a) → Pulls.item next s n = some (.ok b) →
        a.tick ≤ b.tick ∧ (a.tick = b.tick → a.entity ≤ b.entity) := by
  intro body
  obtain ⟨period, query, recording, positive, compiled, whole, rfl⟩ := ofBytes_eq_ok.mp built
  have stream : recording.stream = body := by rw [Recording.stream, Recording.data_ofBytes whole]
  have inStep (n : Nat) : InStep body query (Pulls.after next n (initial recording query period)) :=
    inStep_after n (.inr ⟨[], stream ▸ stands_initial recording query period⟩)
  refine ⟨fun n r given => ?record, fun n fault given => drained_of_fault given, ?once, ?fused, ?ordered⟩
  case record =>
    have one : Pulls.after next (n + 1) (initial recording query period) = _ := Pulls.after_add n 1 _
    exact one ▸ (inStep n).record given
  case once =>
    -- behind the first fault there is nothing, and so no second one
    have not_later {m n : Nat} {left right : Fault}
        (first : Pulls.item next (initial recording query period) m = some (.error left))
        (second : Pulls.item next (initial recording query period) n = some (.error right)) : ¬ m < n := by
      intro less
      obtain ⟨nothing, -⟩ := (inStep 0).fused (fun r given => by cases first.symm.trans given) less
      cases nothing.symm.trans second
    intro m n left right first second
    exact Nat.le_antisymm (Nat.le_of_not_lt (not_later second first)) (Nat.le_of_not_lt (not_later first second))
  case fused =>
    intro n no_record m behind
    exact (inStep 0).fused no_record behind
  case ordered =>
    intro m n a b le first second
    refine before_of_items ?_ le first second
    rw [rest_ofBytes compiled built]
    exact Samples.batch_ordered query ticks body.ticks_ascend

/-- Behind the first of its three records, the recording without an end has been decoded for one frame; the fourth
pull finds the missing end, and is the last that changes anything. -/
theorem in_step_openRecording :
    ∃ s, ofBytes openRecording "$.p" 1 = .ok s ∧
      Pulls.item next s 0 = some (.ok ⟨10, 1, .singleton "hp" (.integer 5)⟩) ∧
      (Pulls.after next 1 s).frames = Pulls.after FrameStream.next 1 (.ofBytes openRecording Header.size) ∧
      (Pulls.after next 1 s).scene.tick = some 10 ∧
      Pulls.item next s 3 = some (.error (.corrupt 1140 .missingStop)) ∧ (Pulls.after next 3 s).pending = [] ∧
      ∀ m, 3 < m → Pulls.item next s m = none ∧ Pulls.after next m s = Pulls.after next 4 s := by
  have compiled : Query.read "$.p" = .ok ⟨[.field "p"]⟩ := by decide +kernel
  have items : (Samples.batch ⟨[.field "p"]⟩ 1 (FrameStream.ofBytes openRecording Header.size).transcript).items =
      [.ok ⟨10, 1, .singleton "hp" (.integer 5)⟩, .ok ⟨11, 1, .singleton "hp" (.integer 6)⟩,
        .ok ⟨12, 1, .singleton "hp" (.integer 7)⟩, .error (.corrupt 1140 .missingStop)] := by decide +kernel
  have one : ((FrameStream.ofBytes openRecording Header.size).transcript.frames.filter (·.tick ≤ 10)).length = 1 := by
    decide +kernel
  have good : (ofBytes openRecording "$.p" 1).isOk := by decide +kernel
  cases built : ofBytes openRecording "$.p" 1 with
  | error fault =>
    rw [built] at good
    cases good
  | ok s =>
    have yields := s.yields_rest
    rw [rest_ofBytes compiled built, items] at yields
    obtain ⟨record, drained, -, fused, -⟩ := in_step built
    obtain ⟨tick, -, frames, -, -⟩ := record 0 _ (yields 0)
    rw [one] at frames
    refine ⟨s, rfl, yields 0, frames, tick, yields 3, drained 3 _ (yields 3), fused 3 fun r given => ?_⟩
    cases (yields 3).symm.trans given

end Sampler
end DemoTape
