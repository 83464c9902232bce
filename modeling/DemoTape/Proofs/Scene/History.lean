/-
# A scene and its history

Frames that apply without a fault leave a scene that can be read off their messages alone. An entity is there if
its last baseline has no removal behind it; it has the class of that baseline, and each property has the value
that the baseline or a later delta assigned last. A key that is a slot counts as the name that the slot had been
given last before its message: what is written to the slot afterwards renames nothing.

`Remembers` says this of the messages so far. Each message keeps it, and so `replay_history` has it at the end of
any frames.
-/
import DemoTape.Proofs.Scene.Changes

namespace DemoTape
set_option autoImplicit false

/-! ## What messages say -/

namespace History

/-- What some messages write to the slots of string tables. -/
def slotWrites (messages : List Message) : List (SlotRef × String) :=
  messages.flatMap fun
    | .table name entries => entries.map fun entry => (⟨name, entry.index⟩, entry.text)
    | _ => []

/-- The text that a slot was given last. -/
def lastText (messages : List Message) (table : String) (index : UInt16) : Option String :=
  lastOf ⟨table, index⟩ (slotWrites messages)

/-- The name that a key stands for behind some messages. -/
def nameAfter (past : List Message) : PropertyKey → Option String
  | .name s => some s
  | .slot index => lastText past StringTables.propertyNames index

/-- What a message behind some others assigns to the properties of an entity. -/
def assigned (id : EntityId) (past : List Message) : Message → List (String × Value)
  | .baseline id' _ assignments => if id' = id then Scene.named (nameAfter past) assignments else []
  | .delta id' assignments => if id' = id then Scene.named (nameAfter past) assignments else []
  | _ => []

/-- What some messages behind others assign to the properties of an entity. -/
def assignedAll (id : EntityId) : (past : List Message) → List Message → List (String × Value)
  | _, [] => []
  | past, first :: rest => assigned id past first ++ assignedAll id (past ++ [first]) rest

/-- The entity that a message makes, changes or removes. -/
def entityOf : Message → Option EntityId
  | .baseline id _ _ => some id
  | .delta id _ => some id
  | .remove id => some id
  | _ => none

/-- The messages have a baseline of an entity that no later one removes. -/
def Lives (id : EntityId) (messages : List Message) : Prop :=
  ∃ before cls first after, messages = before ++ .baseline id cls first :: after ∧ .remove id ∉ after

/-- An entity carries this identifier, the last baseline for it has no removal behind it, and the entity is what this
baseline and the later deltas have made of it. -/
def Built (id : EntityId) (entity : Entity) (messages : List Message) : Prop :=
  entity.id = id ∧
    ∃ before first after, messages = before ++ .baseline id entity.cls first :: after ∧
      (∀ cls assignments, .baseline id cls assignments ∉ after) ∧ .remove id ∉ after ∧
      ∀ name, entity.properties.find? name =
        lastOf name (assignedAll id before (.baseline id entity.cls first :: after))

theorem slotWrites_concat (past : List Message) (m : Message) :
    slotWrites (past ++ [m]) = slotWrites past ++ slotWrites [m] := List.flatMap_append

theorem assignedAll_concat (id : EntityId) (past ms : List Message) (m : Message) :
    assignedAll id past (ms ++ [m]) = assignedAll id past ms ++ assigned id (past ++ ms) m := by
  induction ms generalizing past with
  | nil => simp [assignedAll]
  | cons first rest ih =>
    rw [List.cons_append, assignedAll, ih, assignedAll, List.append_assoc, List.append_assoc, List.singleton_append]

theorem assigned_of_other {id : EntityId} {past : List Message} {m : Message} (other : entityOf m ≠ some id) :
    assigned id past m = [] := by
  cases m with
  | baseline id' cls assignments => exact if_neg fun same => other (congrArg some same)
  | delta id' assignments => exact if_neg fun same => other (congrArg some same)
  | _ => rfl

/-! ## One more message -/

/-- A place among some messages and one more is that of the last or one among the others. -/
theorem split_concat {past before after : List Message} {m middle : Message}
    (split : past ++ [m] = before ++ middle :: after) :
    (past = before ∧ m = middle ∧ after = []) ∨ ∃ less, after = less ++ [m] ∧ past = before ++ middle :: less := by
  rcases List.eq_nil_or_concat after with rfl | ⟨less, last, rfl⟩
  · obtain ⟨same, last⟩ := List.append_inj' split rfl
    exact .inl ⟨same, List.singleton_inj.mp last, rfl⟩
  · rw [List.concat_eq_append, ← List.cons_append, ← List.append_assoc] at split
    obtain ⟨same, last_eq⟩ := List.append_inj' split rfl
    obtain rfl := List.singleton_inj.mp last_eq
    exact .inr ⟨less, List.concat_eq_append, same⟩

theorem lives_of_built {id : EntityId} {entity : Entity} {messages : List Message} (built : Built id entity messages) :
    Lives id messages :=
  let ⟨_, before, first, after, split, _, kept, _⟩ := built
  ⟨before, entity.cls, first, after, split, kept⟩

theorem not_lives_nil (id : EntityId) : ¬ Lives id [] := by
  rintro ⟨before, cls, first, after, split, -⟩
  simp at split

theorem not_lives_remove (id : EntityId) (past : List Message) : ¬ Lives id (past ++ [.remove id]) := by
  rintro ⟨before, cls, first, after, split, kept⟩
  rcases split_concat split with ⟨-, other, -⟩ | ⟨less, rfl, -⟩
  · nomatch other
  · simp at kept

/-- Only a baseline brings an entity to life. -/
theorem lives_of_concat {id : EntityId} {past : List Message} {m : Message} (lives : Lives id (past ++ [m]))
    (other : ∀ cls assignments, m ≠ .baseline id cls assignments) : Lives id past := by
  obtain ⟨before, cls, first, after, split, kept⟩ := lives
  rcases split_concat split with ⟨-, rfl, -⟩ | ⟨less, rfl, earlier⟩
  · exact absurd rfl (other cls first)
  · exact ⟨before, cls, first, less, earlier, fun removed => kept (List.mem_append_left _ removed)⟩

theorem built_baseline {id : EntityId} {cls : String} {assignments : List Assignment} {past : List Message}
    {properties : Properties}
    (made : ∀ name, properties.find? name = lastOf name (Scene.named (nameAfter past) assignments)) :
    Built id ⟨id, cls, properties⟩ (past ++ [.baseline id cls assignments]) := by
  refine ⟨rfl, past, assignments, [], rfl, by simp, by simp, ?_⟩
  intro name
  simp only [made, assignedAll, assigned, if_true, List.append_nil]

/-- An entity that a message neither makes anew nor removes is built on. -/
theorem built_concat {id : EntityId} {entity : Entity} {properties : Properties} {past : List Message} {m : Message}
    (built : Built id entity past) (other : ∀ cls assignments, m ≠ .baseline id cls assignments)
    (kept : m ≠ .remove id)
    (made : ∀ name, properties.find? name = (lastOf name (assigned id past m)).or (entity.properties.find? name)) :
    Built id { entity with properties } (past ++ [m]) := by
  obtain ⟨own, before, first, after, rfl, last, present, found⟩ := built
  refine ⟨own, before, first, after ++ [m], by simp, ?_, ?_, ?_⟩
  · intro cls assignments member
    rcases List.mem_append.mp member with member | member
    · exact last cls assignments member
    · exact other cls assignments (List.mem_singleton.mp member).symm
  · intro member
    rcases List.mem_append.mp member with member | member
    · exact present member
    · exact kept (List.mem_singleton.mp member).symm
  · intro name
    rw [← List.cons_append, assignedAll_concat, lastOf_append, made, found]

end History

/-! ## Scenes that remember -/

namespace Scene
open History

/-- The scene is what some messages have made. -/
structure Remembers (past : List Message) (scene : Scene) : Prop where
  slots : ∀ table index, scene.tables.slot? table index = lastText past table index
  commands : scene.commandCount = UInt64.ofNat (past.countP (·.sort = .command))
  tracked : ∀ {id entity}, scene.entities.find? id = some entity → Built id entity past
  untracked : ∀ {id}, scene.entities.find? id = none → ¬ Lives id past

theorem remembers_empty : Remembers [] .empty where
  slots _ _ := rfl
  commands := rfl
  tracked found := by simp [empty] at found
  untracked _ := not_lives_nil _

variable {past : List Message} {scene after : Scene} {m : Message}

theorem Remembers.name? (remembers : Remembers past scene) : scene.tables.name? = nameAfter past := by
  funext key
  cases key with
  | name s => rfl
  | slot index => exact remembers.slots _ _

/-- What a message writes and counts, apart from the entities. -/
theorem Remembers.concat (remembers : Remembers past scene)
    (tables : after.tables = scene.tables.insertAll (slotWrites [m]))
    (commands : after.commandCount = scene.commandCount + UInt64.ofNat ([m].countP (·.sort = .command)))
    (tracked : ∀ {id entity}, after.entities.find? id = some entity → Built id entity (past ++ [m]))
    (untracked : ∀ {id}, after.entities.find? id = none → ¬ Lives id (past ++ [m])) :
    Remembers (past ++ [m]) after where
  slots table index := by
    have before : scene.tables.find? ⟨table, index⟩ = lastOf ⟨table, index⟩ (slotWrites past) :=
      remembers.slots table index
    rw [StringTables.slot?, tables, SortedMap.find?_insertAll, before, lastText, slotWrites_concat, lastOf_append]
  commands := by rw [commands, remembers.commands, List.countP_append, UInt64.ofNat_add]
  tracked := tracked
  untracked := untracked

theorem Remembers.tracked_other {id : EntityId} {entity : Entity} (remembers : Remembers past scene)
    (other : entityOf m ≠ some id) (found : scene.entities.find? id = some entity) :
    Built id entity (past ++ [m]) := by
  refine built_concat (remembers.tracked found) ?_ ?_ ?_
  · rintro cls assignments rfl
    exact other rfl
  · rintro rfl
    exact other rfl
  · intro name
    rw [assigned_of_other other, lastOf_nil, Option.none_or]

theorem Remembers.untracked_other {id : EntityId} (remembers : Remembers past scene)
    (other : entityOf m ≠ some id) (absent : scene.entities.find? id = none) : ¬ Lives id (past ++ [m]) := by
  intro lives
  refine remembers.untracked absent (lives_of_concat lives ?_)
  rintro cls assignments rfl
  exact other rfl

/-- A message about an entity, with what it leaves of it. -/
theorem Remembers.concat_put {id : EntityId} {new : Option Entity} {entities : Entities}
    (remembers : Remembers past scene) (about : entityOf m = some id) (put : scene.entities.Put id new entities)
    (built : ∀ entity ∈ new, Built id entity (past ++ [m])) (gone : new = none → ¬ Lives id (past ++ [m]))
    (kinds : Kinds) : Remembers (past ++ [m]) { scene with kinds, entities } := by
  have others {id'} (elsewhere : id' ≠ id) : entityOf m ≠ some id' := by
    intro same
    exact elsewhere (Option.some.inj (same.symm.trans about))
  refine remembers.concat ?_ ?_ ?_ ?_
  · cases m with
    | table name entries => nomatch about
    | _ => rfl
  · cases m with
    | command sequence input => nomatch about
    | _ => exact (UInt64.add_zero _).symm
  · intro id' entity found
    rw [put id'] at found
    split at found
    case isTrue here => exact here ▸ built entity found
    case isFalse elsewhere => exact remembers.tracked_other (others elsewhere) found
  · intro id' absent
    rw [put id'] at absent
    split at absent
    case isTrue here => exact here ▸ gone absent
    case isFalse elsewhere => exact remembers.untracked_other (others elsewhere) absent

theorem remembers_baseline {offset : Nat} {id : EntityId} {cls : String} {assignments : List Assignment}
    (remembers : Remembers past scene)
    (done : Change.message offset (.baseline id cls assignments) scene = .ok () after) :
    Remembers (past ++ [.baseline id cls assignments]) after := by
  obtain ⟨kinds, rfl⟩ := baseline_ok done
  refine remembers.concat_put rfl (scene.entities.put_insert id ⟨id, cls, _⟩ rfl) ?_ nofun kinds
  rintro _ ⟨⟩
  refine built_baseline fun name => ?_
  rw [SortedMap.find?_insertAll, SortedMap.find?_empty, Option.or_none, remembers.name?]

theorem remembers_delta {offset : Nat} {id : EntityId} {assignments : List Assignment}
    (remembers : Remembers past scene) (done : Change.message offset (.delta id assignments) scene = .ok () after) :
    Remembers (past ++ [.delta id assignments]) after := by
  obtain ⟨entity, kinds, present, rfl⟩ := delta_ok done
  refine remembers.concat_put rfl (Entities.put_modifyProperties present (·.insertAll _)) ?_ nofun kinds
  rintro _ ⟨⟩
  refine built_concat (remembers.tracked present) (by simp) (by simp) fun name => ?_
  rw [SortedMap.find?_insertAll, remembers.name?, assigned, if_pos rfl]

theorem remembers_remove {id : EntityId} (remembers : Remembers past scene) :
    Remembers (past ++ [.remove id]) { scene with entities := scene.entities.erase id } := by
  refine remembers.concat_put rfl (scene.entities.put_erase id) (fun _ absent => nomatch absent) ?_ scene.kinds
  exact fun _ => not_lives_remove id past

/-- A message that is done is remembered. -/
theorem remembers_message {offset : Nat} (remembers : Remembers past scene)
    (done : Change.message offset m scene = .ok () after) : Remembers (past ++ [m]) after := by
  cases m with
  | baseline id cls assignments => exact remembers_baseline remembers done
  | delta id assignments => exact remembers_delta remembers done
  | remove id =>
    obtain ⟨-, rfl⟩ := EStateM.Result.ok.inj done
    exact remembers_remove remembers
  | table name entries =>
    obtain ⟨-, rfl⟩ := EStateM.Result.ok.inj done
    refine remembers.concat ?_ (UInt64.add_zero _).symm (remembers.tracked_other nofun)
      (remembers.untracked_other nofun)
    rw [slotWrites, List.flatMap_singleton]
    exact StringTables.write_eq_insertAll _ _ _
  | command sequence input =>
    obtain ⟨-, rfl⟩ := EStateM.Result.ok.inj done
    exact remembers.concat rfl rfl (remembers.tracked_other nofun) (remembers.untracked_other nofun)
  | other kind length =>
    obtain ⟨-, rfl⟩ := EStateM.Result.ok.inj done
    exact remembers.concat rfl (UInt64.add_zero _).symm (remembers.tracked_other nofun)
      (remembers.untracked_other nofun)

/-! ## Runs -/

theorem remembers_messages {offset : Nat} {ms : List Message} (remembers : Remembers past scene)
    (done : Change.messages offset ms scene = .ok () after) : Remembers (past ++ ms) after := by
  induction ms generalizing past scene with
  | nil =>
    obtain ⟨-, rfl⟩ := EStateM.Result.ok.inj done
    rwa [List.append_nil]
  | cons first rest ih =>
    obtain ⟨between, one, others⟩ := messages_cons_ok.mp done
    -- the first message belongs to the past of the others, since a slot that it writes renames their keys
    rw [← List.singleton_append, ← List.append_assoc]
    exact ih (remembers_message remembers one) others

/-- The tick of a scene is no matter of its messages. -/
theorem Remembers.atTick (remembers : Remembers past scene) (tick : Option Tick) :
    Remembers past { scene with tick } :=
  { remembers with }

theorem remembers_replay {frames : List Frame} (remembers : Remembers past scene)
    (done : scene.replay frames = .ok after) : Remembers (past ++ frames.flatMap Frame.messages) after := by
  induction frames generalizing past scene with
  | nil =>
    obtain rfl := Except.ok.inj done
    rwa [List.flatMap_nil, List.append_nil]
  | cons frame rest ih =>
    obtain ⟨between, applied, later⟩ := replay_cons_ok.mp done
    obtain ⟨made, messages, rfl⟩ := apply_ok.mp applied
    rw [List.flatMap_cons, ← List.append_assoc]
    exact ih ((remembers_messages remembers messages).atTick _) later

/-- The tick is that of the last frame. -/
theorem tick_replay {frames : List Frame} (done : scene.replay frames = .ok after) :
    after.tick = (frames.getLast?.map Frame.tick).or scene.tick := by
  induction frames generalizing scene with
  | nil =>
    obtain rfl := Except.ok.inj done
    rfl
  | cons frame rest ih =>
    obtain ⟨between, applied, later⟩ := replay_cons_ok.mp done
    obtain ⟨made, -, rfl⟩ := apply_ok.mp applied
    rw [ih later, List.getLast?_cons]
    cases rest.getLast? <;> rfl

/-- **Frames that apply without a fault leave what their messages say.** The commands are counted in a word, which is
their number as long as it fits. -/
theorem replay_history {frames : List Frame} {scene : Scene} (done : Scene.empty.replay frames = .ok scene) :
    let said := frames.flatMap Frame.messages
    let commands := said.countP (·.sort = .command)
    (∀ id, (scene.entities.find? id).isSome ↔ Lives id said) ∧
    (∀ id entity, scene.entities.find? id = some entity → Built id entity said) ∧
    (∀ table index, scene.tables.slot? table index = lastText said table index) ∧
    scene.tick = frames.getLast?.map Frame.tick ∧
    scene.commandCount = UInt64.ofNat commands ∧
    (commands < UInt64.size → scene.commandCount.toNat = commands) := by
  intro said commands
  have remembers := remembers_replay remembers_empty done
  rw [List.nil_append] at remembers
  refine ⟨?_, fun id entity => remembers.tracked, remembers.slots, ?_, remembers.commands, ?_⟩
  · intro id
    constructor
    · intro present
      obtain ⟨entity, found⟩ := Option.isSome_iff_exists.mp present
      exact lives_of_built (remembers.tracked found)
    · intro lives
      cases found : scene.entities.find? id with
      | none => exact absurd lives (remembers.untracked found)
      | some entity => rfl
  · rw [tick_replay done]
    exact Option.or_none
  · intro fits
    rw [remembers.commands]
    exact UInt64.toNat_ofNat_of_lt fits

/-- Frames in which an entity is removed and comes back under another class, and a slot gets another name. -/
def recreated : List Frame := [
  { tick := 5, offset := 1072, messages := [
      .table "propnames" [⟨0, "hp"⟩, ⟨1, "hp"⟩, ⟨0, "mp"⟩],
      .baseline 1 "tree" [⟨.slot 0, .integer 3⟩, ⟨.name "mp", .integer 4⟩, ⟨.slot 1, .boolean true⟩],
      .baseline 2 "tree" []] },
  { tick := 9, offset := 1200, messages := [
      .remove 1, .command 7 [], .remove 2,
      .baseline 1 "rock" [⟨.slot 0, .boolean true⟩, ⟨.name "hp", .integer 5⟩],
      .table "propnames" [⟨0, "hp"⟩],
      .delta 1 [⟨.slot 0, .integer 6⟩]] }]

theorem replay_history_recreated :
    ∃ scene, Scene.empty.replay recreated = .ok scene ∧
      Lives 1 (recreated.flatMap Frame.messages) ∧ ¬ Lives 2 (recreated.flatMap Frame.messages) ∧
      (∃ entity, scene.entities.find? 1 = some entity ∧ entity.id = 1 ∧ entity.cls = "rock" ∧
        entity.properties.find? "hp" = some (.integer 6) ∧ Built 1 entity (recreated.flatMap Frame.messages)) ∧
      scene.tables.slot? "propnames" 0 = some "hp" ∧ scene.tick = some 9 ∧ scene.commandCount.toNat = 1 := by
  have done : ∃ scene, Scene.empty.replay recreated = .ok scene ∧ ∃ entity, scene.entities.find? 1 = some entity ∧
      scene.entities.find? 2 = none ∧ entity.cls = "rock" ∧ entity.properties.find? "hp" = some (.integer 6) :=
    ⟨_, rfl, _, rfl, rfl, rfl, rfl⟩
  obtain ⟨scene, done, entity, first, second, cls, health⟩ := done
  obtain ⟨lives, built, slots, tick, -, commands⟩ := replay_history done
  have made := built 1 entity first
  refine ⟨scene, done, (lives 1).mp ?_, ?_, ⟨entity, first, made.1, cls, health, made⟩, ?_, ?_, commands (by decide)⟩
  · rw [first]
    rfl
  · intro two
    have present := (lives 2).mpr two
    rw [second] at present
    nomatch present
  · rw [slots]
    decide +kernel
  · rw [tick]
    rfl

end Scene
end DemoTape
