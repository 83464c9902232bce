/-
# Messages of different entities commute

What a message makes of its entity depends on that entity and on the tables, and on nothing else (`Becomes`). It goes
through if its checks agree with the kinds that there are, which does not depend on the order of the checks: of two
checks that differ one is refused, whichever comes first. So two messages of different entities, one after the other,
go through in one order exactly if they do in the other, and leave the same scene. An inert message only counts, so it
commutes with every other one. Both carry over to any number of swaps of neighbours (`apply_rearranged`).
-/
import DemoTape.Proofs.Scene.History
import DemoTape.Proofs.Scene.Inert
import DemoTape.Proofs.Scene.Vetting
import Mathlib.Logic.Relation

namespace DemoTape
set_option autoImplicit false

namespace Entities.Put
variable {es fs : Entities} {i j : EntityId} {new new' : Option Entity}

/-- What can be put somewhere under an identifier can be put under it anywhere. -/
theorem elsewhere (put : es.Put i new fs) (other : Entities) : ∃ gs, other.Put i new gs := by
  cases new with
  | none => exact ⟨_, other.put_erase i⟩
  | some entity =>
    have found : fs.find? i = some entity := (put i).trans (if_pos rfl)
    exact ⟨_, other.put_insert i entity (id_of_find? found)⟩

theorem comm {gs fs' gs' : Entities} (other : i ≠ j) (first : es.Put i new fs) (second : fs.Put j new' gs)
    (first' : es.Put j new' fs') (second' : fs'.Put i new gs') : gs = gs' := by
  refine ext_find? fun id => ?_
  rw [second id, first id, second' id, first' id]
  by_cases here : id = j
  · rw [if_pos here, if_neg (fun same => other (same.symm.trans here)), if_pos here]
  · rw [if_neg here, if_neg here]

end Entities.Put

/-! ## Rearrangements -/

namespace Message
open History

/-- Whether one of two messages is inert, or they are about different entities. -/
def Independent (a b : Message) : Prop :=
  a.inert = true ∨ b.inert = true ∨ ∃ i j, entityOf a = some i ∧ entityOf b = some j ∧ i ≠ j

/-- Some messages, and the same with two independent neighbours swapped. -/
inductive Swapped : List Message → List Message → Prop
  | mk {a b : Message} (front back : List Message) (independent : Independent a b) :
      Swapped (front ++ a :: b :: back) (front ++ b :: a :: back)

end Message

namespace Scene
open Check History

variable {offset : Nat} {scene after : Scene} {a b m : Message} {i j id : EntityId} {ms ns : List Message}

/-! ## Messages of entities -/

/-- What a message makes of its entity, and the checks that go with it. -/
inductive Becomes (tables : StringTables) : Message → Option Entity → List Check → Option Entity → Prop
  | baseline {id : EntityId} {cls : String} {assignments : List Assignment} {writes : List (String × Value)}
      {old : Option Entity} (called : Called tables assignments writes) :
      Becomes tables (.baseline id cls assignments) old (ofWrites cls writes)
        (some ⟨id, cls, SortedMap.insertAll ∅ writes⟩)
  | delta {id : EntityId} {entity : Entity} {assignments : List Assignment} {writes : List (String × Value)}
      (called : Called tables assignments writes) :
      Becomes tables (.delta id assignments) (some entity) (ofWrites entity.cls writes)
        (some { entity with properties := entity.properties.insertAll writes })
  | remove {id : EntityId} {old : Option Entity} : Becomes tables (.remove id) old [] none

/-- A message has gone through that is about an entity: it has changed this entity alone, and its checks agree with the
kinds. -/
def Acts (id : EntityId) (m : Message) (scene after : Scene) : Prop :=
  ∃ checks new entities, Becomes scene.tables m (scene.entities.find? id) checks new ∧ Agree scene.kinds checks ∧
    scene.entities.Put id new entities ∧ after = { scene with kinds := noted scene.kinds checks, entities }

theorem baseline_acts {cls : String} {assignments : List Assignment} :
    Change.message offset (.baseline id cls assignments) scene = .ok () after ↔
      Acts id (.baseline id cls assignments) scene after := by
  constructor
  · intro done
    obtain ⟨sound, rfl⟩ := baseline_eq_ok.mp done
    obtain ⟨writes, passes⟩ := vetAll_sound.mp sound
    simp only [vetAll_of_passes passes]
    exact ⟨_, _, _, .baseline passes.called, passes.agree, scene.entities.put_insert id ⟨id, cls, _⟩ rfl, rfl⟩
  · rintro ⟨_, _, entities, ⟨called⟩, agree, put, rfl⟩
    refine baseline_eq_ok.mpr ?_
    simp only [vetAll_of_passes ⟨called, agree⟩, put.unique (scene.entities.put_insert id ⟨id, cls, _⟩ rfl), and_self]

theorem delta_acts {assignments : List Assignment} :
    Change.message offset (.delta id assignments) scene = .ok () after ↔
      Acts id (.delta id assignments) scene after := by
  rw [delta_eq_ok, Acts]
  cases tracked : scene.entities.find? id with
  | none =>
    refine iff_of_false (fun ⟨_, tracked, _⟩ => nomatch tracked) ?_
    rintro ⟨_, _, _, becomes, -⟩
    cases becomes
  | some entity =>
    simp only [Option.some.injEq, exists_eq_left']
    constructor
    · rintro ⟨sound, rfl⟩
      obtain ⟨writes, passes⟩ := vetAll_sound.mp sound
      simp only [vetAll_of_passes passes]
      exact ⟨_, _, _, .delta passes.called, passes.agree, Entities.put_modifyProperties tracked (·.insertAll _), rfl⟩
    · rintro ⟨_, _, entities, becomes, agree, put, rfl⟩
      cases becomes with
      | delta called =>
        have same := put.unique (Entities.put_modifyProperties tracked (·.insertAll _))
        simp only [vetAll_of_passes ⟨called, agree⟩, same, and_self]

theorem remove_acts :
    Change.message offset (.remove id) scene = .ok () after ↔ Acts id (.remove id) scene after := by
  constructor
  · intro done
    obtain ⟨-, rfl⟩ := EStateM.Result.ok.inj done
    exact ⟨[], none, _, .remove, agree_nil _, scene.entities.put_erase id, rfl⟩
  · rintro ⟨_, _, entities, ⟨⟩, -, put, rfl⟩
    rw [put.unique (scene.entities.put_erase id)]
    rfl

theorem message_acts (about : entityOf m = some id) :
    Change.message offset m scene = .ok () after ↔ Acts id m scene after := by
  cases m with
  | baseline => cases about; exact baseline_acts
  | delta => cases about; exact delta_acts
  | remove => cases about; exact remove_acts
  | table | command | other => cases about

theorem messages_pair : Change.messages offset [a, b] scene = .ok () after ↔
    ∃ between, Change.message offset a scene = .ok () between ∧ Change.message offset b between = .ok () after := by
  have last (between : Scene) : Change.messages offset [b] between = .ok () after ↔
      Change.message offset b between = .ok () after := by
    rw [messages_cons_ok]
    exact ⟨fun ⟨_, done, rest⟩ => (EStateM.Result.ok.inj rest).2 ▸ done, fun done => ⟨_, done, rfl⟩⟩
  rw [messages_cons_ok]
  simp only [last]

/-- Messages of different entities go through in the other order if they do in the one. -/
theorem swap_entities (aboutA : entityOf a = some i) (aboutB : entityOf b = some j) (other : i ≠ j)
    (done : Change.messages offset [a, b] scene = .ok () after) :
    Change.messages offset [b, a] scene = .ok () after := by
  obtain ⟨between, first, second⟩ := messages_pair.mp done
  obtain ⟨checksA, newA, entitiesA, becomesA, agreeA, putA, rfl⟩ := (message_acts aboutA).mp first
  obtain ⟨checksB, newB, entitiesB, becomesB, agreeB, putB, rfl⟩ := (message_acts aboutB).mp second
  obtain ⟨agree, same⟩ := agree_comm (agree_append.mpr ⟨agreeA, agreeB⟩)
  obtain ⟨agreeB, agreeA⟩ := agree_append.mp agree
  obtain ⟨entitiesB', putB'⟩ := putB.elsewhere scene.entities
  obtain ⟨entitiesA', putA'⟩ := putA.elsewhere entitiesB'
  rw [putA j, if_neg (Ne.symm other)] at becomesB
  refine messages_pair.mpr ⟨_, (message_acts aboutB).mpr ⟨checksB, newB, entitiesB', becomesB, agreeB, putB', rfl⟩,
    (message_acts aboutA).mpr ⟨checksA, newA, entitiesA', ?_, agreeA, putA', ?_⟩⟩
  · rw [putB' i, if_neg other]
    exact becomesA
  · simp only [← noted_append, same, Entities.Put.comm other putA putB putB' putA']

/-! ## Inert messages -/

theorem commandCount_message (done : Change.message offset m scene = .ok () after) :
    after.commandCount = scene.commandCount + m.commands := by
  obtain ⟨-, same⟩ := EStateM.Result.ok.inj (done.symm.trans (message_recount done offset scene.commandCount))
  exact congrArg commandCount same

theorem commands_comm (count : UInt64) (a b : Message) :
    count + a.commands + b.commands = count + b.commands + a.commands := by
  rw [UInt64.add_assoc, UInt64.add_comm a.commands, ← UInt64.add_assoc]

theorem swap_inert (inert : a.inert = true) :
    Change.messages offset [a, b] scene = .ok () after ↔ Change.messages offset [b, a] scene = .ok () after := by
  rw [messages_pair, messages_pair]
  constructor
  · rintro ⟨between, first, second⟩
    obtain ⟨-, rfl⟩ := EStateM.Result.ok.inj (first.symm.trans (message_inert inert offset scene))
    refine ⟨_, message_recount second offset scene.commandCount, ?_⟩
    have count := commandCount_message second
    rw [message_inert inert]
    simp only [recount] at count ⊢
    rw [commands_comm, ← count]
  · rintro ⟨between, first, second⟩
    obtain ⟨-, rfl⟩ := EStateM.Result.ok.inj (second.symm.trans (message_inert inert offset between))
    refine ⟨_, message_inert inert offset scene, ?_⟩
    rw [message_recount first, commandCount_message first, commands_comm]

/-! ## Frames -/

theorem swap_independent (independent : a.Independent b) :
    Change.messages offset [a, b] scene = .ok () after ↔ Change.messages offset [b, a] scene = .ok () after := by
  rcases independent with inert | inert | ⟨i, j, aboutA, aboutB, other⟩
  · exact swap_inert inert
  · exact (swap_inert inert).symm
  · exact ⟨swap_entities aboutA aboutB other, swap_entities aboutB aboutA (Ne.symm other)⟩

theorem messages_append_ok : Change.messages offset (ms ++ ns) scene = .ok () after ↔
    ∃ between, Change.messages offset ms scene = .ok () between ∧
      Change.messages offset ns between = .ok () after := by
  rw [Change.messages_append, Change.bind_apply]
  cases Change.messages offset ms scene with
  | ok result between => simp
  | error fault between => simp

theorem messages_swapped (swapped : Message.Swapped ms ns) :
    Change.messages offset ms scene = .ok () after ↔ Change.messages offset ns scene = .ok () after := by
  obtain ⟨front, back, independent⟩ := swapped
  rename_i a b
  have around (c d : Message) : Change.messages offset (front ++ c :: d :: back) scene = .ok () after ↔
      ∃ before, Change.messages offset front scene = .ok () before ∧
        ∃ between, Change.messages offset [c, d] before = .ok () between ∧
          Change.messages offset back between = .ok () after := by
    rw [messages_append_ok]
    exact exists_congr fun before => and_congr_right fun _ => @messages_append_ok _ before _ [c, d] back
  simp only [around, swap_independent independent]

/-- **Updates of different entities commute**, and so do inert messages with all others. However often independent
neighbours are swapped, the frame goes through if it did, and leaves the same scene. -/
theorem apply_rearranged {ms ms' : List Message} (swaps : Relation.ReflTransGen Message.Swapped ms ms') (scene : Scene)
    (tick : Tick) (offset : Nat) :
    ((scene.apply ⟨tick, ms, offset⟩).1 = none ↔ (scene.apply ⟨tick, ms', offset⟩).1 = none) ∧
    ((scene.apply ⟨tick, ms, offset⟩).1 = none →
      scene.apply ⟨tick, ms', offset⟩ = scene.apply ⟨tick, ms, offset⟩) := by
  have same (after : Scene) : scene.apply ⟨tick, ms, offset⟩ = (none, after) ↔
      scene.apply ⟨tick, ms', offset⟩ = (none, after) := by
    rw [apply_ok, apply_ok]
    induction swaps with
    | refl => exact Iff.rfl
    | tail earlier swapped ih => simp only [ih, messages_swapped swapped]
  have sound (ns : List Message) : (scene.apply ⟨tick, ns, offset⟩).1 = none ↔
      ∃ after, scene.apply ⟨tick, ns, offset⟩ = (none, after) :=
    ⟨fun done => ⟨_, Prod.ext done rfl⟩, fun ⟨after, done⟩ => congrArg Prod.fst done⟩
  refine ⟨by simp only [sound, same], fun done => ?_⟩
  obtain ⟨after, done⟩ := (sound ms).mp done
  rw [done, (same after).mp done]

/-- Two trees of which one is felled, while a command comes in. -/
def felled : List Message := [
  .baseline 1 "tree" [⟨.name "hp", .integer 3⟩], .baseline 2 "tree" [⟨.name "hp", .integer 4⟩],
  .command 1 [], .remove 1]

/-- The same in another order. -/
def felledLater : List Message := [
  .baseline 2 "tree" [⟨.name "hp", .integer 4⟩], .baseline 1 "tree" [⟨.name "hp", .integer 3⟩],
  .remove 1, .command 1 []]

theorem apply_rearranged_felled :
    Relation.ReflTransGen Message.Swapped felled felledLater ∧ (Scene.empty.apply ⟨5, felled, 1072⟩).1 = none ∧
      (Scene.empty.apply ⟨5, felledLater, 1072⟩).1 = none ∧
      Scene.empty.apply ⟨5, felledLater, 1072⟩ = Scene.empty.apply ⟨5, felled, 1072⟩ := by
  have trees : Message.Swapped felled _ := .mk [] [.command 1 [], .remove 1] (.inr (.inr ⟨1, 2, rfl, rfl, by decide⟩))
  have command : Message.Swapped _ felledLater :=
    .mk [.baseline 2 "tree" [⟨.name "hp", .integer 4⟩], .baseline 1 "tree" [⟨.name "hp", .integer 3⟩]] [] (.inl rfl)
  have swaps : Relation.ReflTransGen Message.Swapped felled felledLater := .tail (.single trees) command
  have sound : (Scene.empty.apply ⟨5, felled, 1072⟩).1 = none := rfl
  obtain ⟨both, same⟩ := apply_rearranged swaps .empty 5 1072
  exact ⟨swaps, sound, both.mp sound, same sound⟩

end Scene
end DemoTape
