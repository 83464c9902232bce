/-
# How a frame fails

A frame that fails leaves what it did until then. `Fails` says for one message why it fails and what it leaves: a
baseline has noted the kinds of the assignments before the one that is refused, and its entity, which was built aside,
is not there; a delta has noted the kinds and changed these properties of its entity; a delta of an entity that is not
tracked has done nothing. No other message fails (`message_error_iff`).

A frame fails at exactly one place. The messages before it did what they do, those behind it nothing, and the tick is
the one before the frame (`apply_failed`).
-/
import DemoTape.Proofs.Scene.Vetting

namespace DemoTape
set_option autoImplicit false

namespace Scene
open Check

/-! ## One message -/

/-- Why a message fails in a scene, and the scene that it leaves. -/
inductive Fails (offset : Nat) (scene : Scene) : Message → Fault → Scene → Prop
  | baseline {id : EntityId} {cls : String} {front back : List Assignment} {assignment : Assignment}
      {writes : List (String × Value)} {fault : Fault}
      (passes : Passes scene.tables scene.kinds cls front writes)
      (refused : Refused offset scene.tables (noted scene.kinds (ofWrites cls writes)) cls assignment fault) :
      Fails offset scene (.baseline id cls (front ++ assignment :: back)) fault
        { scene with kinds := noted scene.kinds (ofWrites cls writes) }
  | untracked {id : EntityId} {assignments : List Assignment} (untracked : scene.entities.find? id = none) :
      Fails offset scene (.delta id assignments) (.corrupt offset (.untrackedEntity id)) scene
  | delta {id : EntityId} {entity : Entity} {front back : List Assignment} {assignment : Assignment}
      {writes : List (String × Value)} {fault : Fault} {entities : Entities}
      (tracked : scene.entities.find? id = some entity)
      (passes : Passes scene.tables scene.kinds entity.cls front writes)
      (refused : Refused offset scene.tables (noted scene.kinds (ofWrites entity.cls writes)) entity.cls assignment
        fault)
      (patched : scene.entities.Put id (some { entity with properties := entity.properties.insertAll writes })
        entities) :
      Fails offset scene (.delta id (front ++ assignment :: back)) fault
        { scene with kinds := noted scene.kinds (ofWrites entity.cls writes), entities }

variable {offset : Nat} {scene between after left : Scene} {m : Message} {ms front : List Message} {fault : Fault}

theorem message_of_fails (fails : Fails offset scene m fault left) :
    Change.message offset m scene = .error fault left := by
  cases fails with
  | baseline passes refused => rw [baseline_eq, vetAll_of_refused passes refused]
  | untracked untracked => exact delta_untracked offset _ untracked
  | delta tracked passes refused patched =>
    rw [delta_eq offset _ tracked, vetAll_of_refused passes refused,
      patched.unique (Entities.put_modifyProperties tracked (·.insertAll _))]
    rfl

/-- A message fails in these ways only. -/
theorem message_error_iff : Change.message offset m scene = .error fault left ↔ Fails offset scene m fault left := by
  refine ⟨fun failed => ?_, message_of_fails⟩
  have known {fault' : Fault} {left' : Scene} (fails : Fails offset scene m fault' left') :
      Fails offset scene m fault left := by
    obtain ⟨rfl, rfl⟩ := EStateM.Result.error.inj ((message_of_fails fails).symm.trans failed)
    exact fails
  cases m with
  | baseline id cls assignments =>
    rcases passes_or_refused offset scene.tables scene.kinds cls assignments with
      ⟨writes, passes⟩ | ⟨front, assignment, back, writes, found, rfl, passes, refused⟩
    · rw [baseline_eq, vetAll_of_passes passes] at failed
      cases failed
    · exact known (.baseline passes refused)
  | delta id assignments =>
    cases tracked : scene.entities.find? id with
    | none => exact known (.untracked tracked)
    | some entity =>
      rcases passes_or_refused offset scene.tables scene.kinds entity.cls assignments with
        ⟨writes, passes⟩ | ⟨front, assignment, back, writes, found, rfl, passes, refused⟩
      · rw [delta_eq offset assignments tracked, vetAll_of_passes passes] at failed
        cases failed
      · exact known (.delta tracked passes refused (Entities.put_modifyProperties tracked (·.insertAll _)))
  | remove | table | command | other => cases failed

/-- Only a message with assignments fails. -/
theorem Fails.sort (fails : Fails offset scene m fault left) : m.sort = .baseline ∨ m.sort = .delta := by
  cases fails with
  | baseline => exact .inl rfl
  | untracked | delta => exact .inr rfl

theorem Refused.cause {tables : StringTables} {kinds : Kinds} {cls : String} {assignment : Assignment}
    (refused : Refused offset tables kinds cls assignment fault) :
    (∃ index, fault = .corrupt offset (.unnamedProperty index StringTables.propertyNames)) ∨
      ∃ cls property expected found, fault = .kindChange cls property expected found := by
  cases refused with
  | unnamed => exact .inl ⟨_, rfl⟩
  | changed => exact .inr ⟨_, _, _, _, rfl⟩

/-- What a message fails for is told with the place of its frame, or it is a change of kind. -/
theorem Fails.cause (fails : Fails offset scene m fault left) :
    (∃ id, fault = .corrupt offset (.untrackedEntity id)) ∨
      (∃ index, fault = .corrupt offset (.unnamedProperty index StringTables.propertyNames)) ∨
      ∃ cls property expected found, fault = .kindChange cls property expected found := by
  cases fails with
  | untracked => exact .inl ⟨_, rfl⟩
  | baseline passes refused | delta tracked passes refused patched => exact .inr refused.cause

/-- A message that fails has changed kinds and entities at most. -/
theorem Fails.kept (fails : Fails offset scene m fault left) :
    left.tick = scene.tick ∧ left.tables = scene.tables ∧ left.commandCount = scene.commandCount := by
  cases fails with
  | baseline | untracked | delta => exact ⟨rfl, rfl, rfl⟩

/-! ## Frames -/

theorem tick_message (done : Change.message offset m scene = .ok () after) : after.tick = scene.tick := by
  cases m with
  | baseline id cls assignments =>
    obtain ⟨-, rfl⟩ := baseline_eq_ok.mp done
    rfl
  | delta id assignments =>
    obtain ⟨entity, -, -, rfl⟩ := delta_eq_ok.mp done
    rfl
  | remove | table | command | other =>
    obtain ⟨-, rfl⟩ := EStateM.Result.ok.inj done
    rfl

theorem tick_messages (done : Change.messages offset ms scene = .ok () after) : after.tick = scene.tick := by
  induction ms generalizing scene with
  | nil =>
    obtain ⟨-, rfl⟩ := EStateM.Result.ok.inj done
    rfl
  | cons m rest ih =>
    obtain ⟨between, first, others⟩ := messages_cons_ok.mp done
    exact (ih others).trans (tick_message first)

/-- At this place of some messages is the first that fails: it is reached in this scene, and leaves that one. -/
structure StopsAt (offset : Nat) (scene : Scene) (ms : List Message) (j : Nat) (between : Scene) (m : Message)
    (fault : Fault) (left : Scene) : Prop where
  there : ms[j]? = some m
  before : Change.messages offset (ms.take j) scene = .ok () between
  fails : Fails offset between m fault left

/-- Whatever is behind a message that fails is not looked at. -/
theorem messages_of_fails (before : Change.messages offset front scene = .ok () between)
    (fails : Fails offset between m fault left) (back : List Message) :
    Change.messages offset (front ++ m :: back) scene = .error fault left := by
  rw [Change.messages_append, Change.bind_apply, before]
  simp only [Change.messages, Change.bind_apply, message_of_fails fails]

theorem StopsAt.split {j : Nat} (stops : StopsAt offset scene ms j between m fault left) :
    ms.take (j + 1) = ms.take j ++ [m] := by
  rw [List.take_add_one, stops.there, Option.toList_some]

theorem StopsAt.messages {j : Nat} (stops : StopsAt offset scene ms j between m fault left) (later : List Message) :
    Change.messages offset (ms.take (j + 1) ++ later) scene = .error fault left := by
  rw [stops.split, List.append_assoc]
  exact messages_of_fails stops.before stops.fails later

/-- Messages that reach past a place do not fail there. -/
theorem StopsAt.le {j j' : Nat} {between' left' : Scene} {m' : Message} {fault' : Fault}
    (stops : StopsAt offset scene ms j between m fault left)
    (stops' : StopsAt offset scene ms j' between' m' fault' left') : j' ≤ j := by
  refine Nat.le_of_not_lt fun past => ?_
  have reached := stops'.before
  rw [← List.take_append_drop (j + 1) (ms.take j'), List.take_take, Nat.min_eq_left past, stops.messages] at reached
  cases reached

theorem exists_stopsAt (failed : Change.messages offset ms scene = .error fault left) :
    ∃ j between m, StopsAt offset scene ms j between m fault left := by
  induction ms generalizing scene with
  | nil => cases failed
  | cons first rest ih =>
    simp only [Change.messages, Change.bind_apply] at failed
    cases one : Change.message offset first scene with
    | error found between =>
      rw [one] at failed
      obtain ⟨rfl, rfl⟩ := EStateM.Result.error.inj failed
      exact ⟨0, scene, first, rfl, rfl, message_error_iff.mp one⟩
    | ok result between =>
      rw [one] at failed
      obtain ⟨j, reached, m, there, before, fails⟩ := ih failed
      exact ⟨j + 1, reached, m, there, messages_cons_ok.mpr ⟨between, one, before⟩, fails⟩

theorem apply_error {frame : Frame} :
    scene.apply frame = (some fault, after) ↔
      Change.messages frame.offset frame.messages scene = .error fault after := by
  simp only [apply, Change.frame, Change.bind_apply]
  cases Change.messages frame.offset frame.messages scene with
  | ok result between => simp [Change.modify_apply]
  | error found between => simp

/-- **A frame that fails has done all up to one place, and nothing behind it.** The messages before the place have been
applied, that at the place is a baseline or a delta that has failed, in one way and with a part of what it would have
done, whatever follows makes no difference, and the tick has stayed. -/
theorem apply_failed {scene after : Scene} {frame : Frame} {fault : Fault}
    (failed : scene.apply frame = (some fault, after)) :
    ∃ j between m, StopsAt frame.offset scene frame.messages j between m fault after ∧
      (∀ j' between' m' fault' after',
        StopsAt frame.offset scene frame.messages j' between' m' fault' after' → j' = j) ∧
      (m.sort = .baseline ∨ m.sort = .delta) ∧
      ((∃ id, fault = .corrupt frame.offset (.untrackedEntity id)) ∨
        (∃ index, fault = .corrupt frame.offset (.unnamedProperty index StringTables.propertyNames)) ∨
        ∃ cls property expected found, fault = .kindChange cls property expected found) ∧
      after.tick = scene.tick ∧ after.tables = between.tables ∧ after.commandCount = between.commandCount ∧
      ∀ tick later, scene.apply ⟨tick, frame.messages.take (j + 1) ++ later, frame.offset⟩ = (some fault, after) := by
  obtain ⟨j, between, m, stops⟩ := exists_stopsAt (apply_error.mp failed)
  obtain ⟨tick, tables, count⟩ := stops.fails.kept
  refine ⟨j, between, m, stops, ?_, stops.fails.sort, stops.fails.cause, tick.trans (tick_messages stops.before),
    tables, count, fun tick later => apply_error.mpr (stops.messages later)⟩
  intro j' between' m' fault' after' stops'
  exact Nat.le_antisymm (stops.le stops') (stops'.le stops)

/-- A delta of which the third of four assignments is refused, among messages that go well. -/
def halted : Frame := { tick := 5, offset := 1072, messages := [
  .table "propnames" [⟨0, "hp"⟩],
  .baseline 1 "tree" [⟨.slot 0, .integer 3⟩],
  .command 1 [],
  .delta 1 [⟨.name "age", .integer 9⟩, ⟨.slot 0, .integer 4⟩, ⟨.slot 0, .boolean true⟩, ⟨.name "mp", .integer 7⟩],
  .remove 1] }

theorem apply_failed_halted :
    ∃ after, Scene.empty.apply halted = (some (.kindChange "tree" "hp" .integer .boolean), after) ∧
      after.entities.find? 1 = some ⟨1, "tree", SortedMap.insertAll ∅ [("hp", .integer 4), ("age", .integer 9)]⟩ ∧
      after.tick = none ∧ after.commandCount = 1 ∧
      ∀ later, Scene.empty.apply ⟨5, halted.messages.take 4 ++ later, 1072⟩ =
        (some (.kindChange "tree" "hp" .integer .boolean), after) := by
  have failed : Scene.empty.apply halted =
      (some (.kindChange "tree" "hp" .integer .boolean), (Scene.empty.apply halted).2) := rfl
  obtain ⟨j, between, m, stops, alone, -, -, tick, -, count, rest⟩ := apply_failed failed
  have here : StopsAt 1072 .empty halted.messages 3 _ _ _ _ := ⟨rfl, rfl, message_error_iff.mp rfl⟩
  obtain rfl : 3 = j := alone _ _ _ _ _ here
  refine ⟨_, failed, rfl, tick, ?_, rest 5⟩
  obtain ⟨-, rfl⟩ := EStateM.Result.ok.inj (here.before.symm.trans stops.before)
  exact count

end Scene
end DemoTape
