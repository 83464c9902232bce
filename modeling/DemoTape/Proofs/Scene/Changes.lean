/-
# What a message changes

A message with assignments works through them one after the other and stops at the first that cannot be resolved
or is of the wrong kind. `vetAll` says what comes out of that: what was let through, the kinds afterwards and the
fault. The scene only takes part through its tables and kinds, so a change is one step: `baseline_eq` and
`delta_eq` give the scene after a message from the vetting of its assignments, whether it ends well or not.
-/
import DemoTape.Proofs.LastWrite

namespace DemoTape
set_option autoImplicit false

abbrev Kinds := SortedMap PropertyRef Kind

/-- The name that a key stands for, if it stands for any. -/
def StringTables.name? (tables : StringTables) : PropertyKey → Option String
  | .name s => some s
  | .slot index => tables.slot? propertyNames index

namespace Scene

namespace Change
variable {α β : Type}

theorem bind_apply (x : Change α) (f : α → Change β) (scene : Scene) :
    (x >>= f) scene = match x scene with
      | .ok a scene => f a scene
      | .error fault scene => .error fault scene := by
  simp only [bind, EStateM.bind]
  cases x scene <;> rfl

theorem get_apply (scene : Scene) : (get : Change Scene) scene = .ok scene scene := rfl

theorem modify_apply (f : Scene → Scene) (scene : Scene) : (modify f : Change Unit) scene = .ok () (f scene) := rfl

end Change

/-! ## One assignment -/

/-- The name that a key stands for, or else the fault. -/
def resolved (offset : Nat) (tables : StringTables) : PropertyKey → Except Fault String
  | .name s => .ok s
  | .slot index =>
    match tables.slot? StringTables.propertyNames index with
    | some name => .ok name
    | none => .error (.corrupt offset (.unnamedProperty index StringTables.propertyNames))

/-- The kinds once a value of a property is let through. -/
def admitted (kinds : Kinds) (ref : PropertyRef) (found : Kind) : Except Fault Kinds :=
  match kinds.find? ref with
  | none => .ok (kinds.insert ref found)
  | some expected => if expected ≠ found then .error (.kindChange ref.cls ref.property expected found) else .ok kinds

/-- The name that an assignment goes to and the kinds once it is let through. -/
def vetted (offset : Nat) (tables : StringTables) (cls : String) (kinds : Kinds) (assignment : Assignment) :
    Except Fault (String × Kinds) :=
  match resolved offset tables assignment.key with
  | .error fault => .error fault
  | .ok name =>
    match admitted kinds ⟨cls, name⟩ assignment.value.kind with
    | .error fault => .error fault
    | .ok kinds => .ok (name, kinds)

theorem resolved_eq_ok {offset : Nat} {tables : StringTables} {key : PropertyKey} {name : String} :
    resolved offset tables key = .ok name ↔ tables.name? key = some name := by
  cases key with
  | name s => simp [resolved, StringTables.name?]
  | slot index =>
    unfold resolved StringTables.name?
    cases found : tables.slot? StringTables.propertyNames index <;> simp [found]

theorem vetted_eq_ok {offset : Nat} {tables : StringTables} {cls : String} {kinds after : Kinds}
    {assignment : Assignment} {name : String} :
    vetted offset tables cls kinds assignment = .ok (name, after) ↔
      tables.name? assignment.key = some name ∧ admitted kinds ⟨cls, name⟩ assignment.value.kind = .ok after := by
  unfold vetted
  rw [← @resolved_eq_ok offset]
  cases resolved offset tables assignment.key with
  | error fault => simp
  | ok found =>
    cases verdict : admitted kinds ⟨cls, found⟩ assignment.value.kind <;> grind

theorem resolve_eq (offset : Nat) (key : PropertyKey) (scene : Scene) :
    Change.resolve offset key scene =
      match resolved offset scene.tables key with
      | .ok name => .ok name scene
      | .error fault => .error fault scene := by
  cases key with
  | name s => rfl
  | slot index =>
    unfold resolved
    simp only [Change.resolve, Change.bind_apply, Change.get_apply]
    cases scene.tables.slot? StringTables.propertyNames index <;> rfl

theorem checkKind_eq (cls property : String) (found : Kind) (scene : Scene) :
    Change.checkKind cls property found scene =
      match admitted scene.kinds ⟨cls, property⟩ found with
      | .ok kinds => .ok () { scene with kinds }
      | .error fault => .error fault scene := by
  unfold admitted
  simp only [Change.checkKind, Change.bind_apply, Change.get_apply]
  cases scene.kinds.find? ⟨cls, property⟩ with
  | none => rfl
  | some expected =>
    by_cases change : expected ≠ found
    · simp only [if_pos change]
      rfl
    · simp only [if_neg change]
      rfl

theorem vet_eq (offset : Nat) (cls : String) (assignment : Assignment) (scene : Scene) :
    Change.vet offset cls assignment scene =
      match vetted offset scene.tables cls scene.kinds assignment with
      | .ok (name, kinds) => .ok name { scene with kinds }
      | .error fault => .error fault scene := by
  unfold vetted
  simp only [Change.vet, Change.bind_apply, resolve_eq]
  cases resolved offset scene.tables assignment.key with
  | error fault => rfl
  | ok name =>
    simp only [checkKind_eq]
    cases admitted scene.kinds ⟨cls, name⟩ assignment.value.kind <;> rfl

/-! ## The assignments of a message -/

/-- What comes out of vetting some assignments. -/
structure Vetting where
  /-- What was let through. -/
  passed : List (String × Value)
  kinds : Kinds
  /-- Why the assignment behind these was not, if there is one. -/
  fault : Option Fault

def vetAll (offset : Nat) (tables : StringTables) (cls : String) : Kinds → List Assignment → Vetting
  | kinds, [] => ⟨[], kinds, none⟩
  | kinds, assignment :: rest =>
    match vetted offset tables cls kinds assignment with
    | .error fault => ⟨[], kinds, some fault⟩
    | .ok (name, kinds) =>
      let later := vetAll offset tables cls kinds rest
      { later with passed := (name, assignment.value) :: later.passed }

section Cons
variable {offset : Nat} {tables : StringTables} {cls : String} {kinds : Kinds} {assignment : Assignment}
  {rest : List Assignment}

theorem vetAll_unnamed (unnamed : tables.name? assignment.key = none) :
    ∃ index, vetAll offset tables cls kinds (assignment :: rest) =
      ⟨[], kinds, some (.corrupt offset (.unnamedProperty index StringTables.propertyNames))⟩ := by
  cases key : assignment.key with
  | name s =>
    rw [key] at unnamed
    cases unnamed
  | slot index =>
    rw [key] at unnamed
    have unwritten : tables.slot? StringTables.propertyNames index = none := unnamed
    exact ⟨index, by simp only [vetAll, vetted, resolved, key, unwritten]⟩

theorem vetAll_refused {name : String} {fault : Fault} (called : tables.name? assignment.key = some name)
    (refused : admitted kinds ⟨cls, name⟩ assignment.value.kind = .error fault) :
    vetAll offset tables cls kinds (assignment :: rest) = ⟨[], kinds, some fault⟩ := by
  simp only [vetAll, vetted, (@resolved_eq_ok offset ..).mpr called, refused]

theorem vetAll_passed {name : String} {after : Kinds} (called : tables.name? assignment.key = some name)
    (passed : admitted kinds ⟨cls, name⟩ assignment.value.kind = .ok after) :
    vetAll offset tables cls kinds (assignment :: rest) =
      let later := vetAll offset tables cls after rest
      { later with passed := (name, assignment.value) :: later.passed } := by
  simp only [vetAll, vetted_eq_ok.mpr ⟨called, passed⟩]

theorem vetAll_cons_sound : (vetAll offset tables cls kinds (assignment :: rest)).fault = none ↔
    ∃ found, vetted offset tables cls kinds assignment = .ok found ∧
      (vetAll offset tables cls found.2 rest).fault = none := by
  rw [vetAll]
  cases vetted offset tables cls kinds assignment with
  | error fault => simp
  | ok found => simp

end Cons

/-- The assignments whose keys stand for a name, under these names. -/
def named (name? : PropertyKey → Option String) (assignments : List Assignment) : List (String × Value) :=
  assignments.filterMap fun assignment => (name? assignment.key).map (·, assignment.value)

/-- Without a fault all the assignments were let through, under the names that the tables give. -/
theorem passed_of_sound {offset : Nat} {tables : StringTables} {cls : String} {kinds : Kinds}
    {assignments : List Assignment} (sound : (vetAll offset tables cls kinds assignments).fault = none) :
    (vetAll offset tables cls kinds assignments).passed = named tables.name? assignments := by
  induction assignments generalizing kinds with
  | nil => rfl
  | cons assignment rest ih =>
    obtain ⟨found, vet, later⟩ := vetAll_cons_sound.mp sound
    simp only [vetAll, vet]
    rw [ih later, named, named, List.filterMap_cons, (vetted_eq_ok.mp vet).1]
    rfl

/-- The place of a frame is only told by faults. -/
theorem vetAll_of_sound {offset : Nat} {tables : StringTables} {cls : String} {kinds : Kinds}
    {assignments : List Assignment} (sound : (vetAll offset tables cls kinds assignments).fault = none)
    (elsewhere : Nat) :
    vetAll elsewhere tables cls kinds assignments = vetAll offset tables cls kinds assignments := by
  induction assignments generalizing kinds with
  | nil => rfl
  | cons assignment rest ih =>
    obtain ⟨found, vet, later⟩ := vetAll_cons_sound.mp sound
    have here : vetted elsewhere tables cls kinds assignment = .ok found := vetted_eq_ok.mpr (vetted_eq_ok.mp vet)
    simp only [vetAll, vet, here, ih later]

/-- How a change ends that has left this scene behind. -/
def ended {α : Type} (fault : Option Fault) (result : α) (scene : Scene) : EStateM.Result Fault Scene α :=
  match fault with
  | none => .ok result scene
  | some fault => .error fault scene

theorem collect_eq (offset : Nat) (cls : String) (properties : Properties) (assignments : List Assignment)
    (scene : Scene) :
    Change.collect offset cls properties assignments scene =
      let v := vetAll offset scene.tables cls scene.kinds assignments
      ended v.fault (properties.insertAll v.passed) { scene with kinds := v.kinds } := by
  induction assignments generalizing properties scene with
  | nil => rfl
  | cons assignment rest ih =>
    simp only [Change.collect, Change.bind_apply, vet_eq, vetAll]
    cases vetted offset scene.tables cls scene.kinds assignment with
    | error fault => rfl
    | ok found => exact ih _ _

theorem patch_eq (offset : Nat) (id : EntityId) (cls : String) (assignments : List Assignment) (scene : Scene) :
    Change.patch offset id cls assignments scene =
      let v := vetAll offset scene.tables cls scene.kinds assignments
      ended v.fault () { scene with
        kinds := v.kinds
        entities := scene.entities.modifyProperties id (·.insertAll v.passed) } := by
  induction assignments generalizing scene with
  | nil =>
    simp only [vetAll, SortedMap.insertAll_nil, Entities.modifyProperties_id]
    rfl
  | cons assignment rest ih =>
    simp only [Change.patch, Change.bind_apply, vet_eq, vetAll]
    cases vetted offset scene.tables cls scene.kinds assignment with
    | error fault =>
      simp only [SortedMap.insertAll_nil, Entities.modifyProperties_id]
      rfl
    | ok found =>
      simp only [Change.modify_apply, ih, Entities.modifyProperties_modifyProperties, SortedMap.insertAll_cons]

/-! ## Messages -/

theorem baseline_eq (offset : Nat) (id : EntityId) (cls : String) (assignments : List Assignment) (scene : Scene) :
    Change.message offset (.baseline id cls assignments) scene =
      let v := vetAll offset scene.tables cls scene.kinds assignments
      match v.fault with
      | none => .ok () { scene with
          kinds := v.kinds
          entities := scene.entities.insert id ⟨id, cls, SortedMap.insertAll ∅ v.passed⟩ rfl }
      | some fault => .error fault { scene with kinds := v.kinds } := by
  simp only [Change.message, Change.bind_apply, collect_eq, ended]
  cases (vetAll offset scene.tables cls scene.kinds assignments).fault <;> rfl

theorem delta_eq (offset : Nat) {id : EntityId} {entity : Entity} (assignments : List Assignment) {scene : Scene}
    (tracked : scene.entities.find? id = some entity) :
    Change.message offset (.delta id assignments) scene =
      let v := vetAll offset scene.tables entity.cls scene.kinds assignments
      ended v.fault () { scene with
        kinds := v.kinds
        entities := scene.entities.modifyProperties id (·.insertAll v.passed) } := by
  rw [← patch_eq]
  simp only [Change.message, Change.bind_apply, Change.get_apply, tracked]

theorem delta_untracked (offset : Nat) {id : EntityId} (assignments : List Assignment) {scene : Scene}
    (untracked : scene.entities.find? id = none) :
    Change.message offset (.delta id assignments) scene = .error (.corrupt offset (.untrackedEntity id)) scene := by
  simp only [Change.message, Change.bind_apply, Change.get_apply, untracked]
  rfl

theorem baseline_eq_ok {offset : Nat} {id : EntityId} {cls : String} {assignments : List Assignment}
    {scene after : Scene} :
    Change.message offset (.baseline id cls assignments) scene = .ok () after ↔
      let v := vetAll offset scene.tables cls scene.kinds assignments
      v.fault = none ∧ { scene with
        kinds := v.kinds
        entities := scene.entities.insert id ⟨id, cls, SortedMap.insertAll ∅ v.passed⟩ rfl } = after := by
  rw [baseline_eq]
  dsimp only
  cases (vetAll offset scene.tables cls scene.kinds assignments).fault <;> simp

theorem delta_eq_ok {offset : Nat} {id : EntityId} {assignments : List Assignment} {scene after : Scene} :
    Change.message offset (.delta id assignments) scene = .ok () after ↔
      ∃ entity, scene.entities.find? id = some entity ∧
        let v := vetAll offset scene.tables entity.cls scene.kinds assignments
        v.fault = none ∧ { scene with
          kinds := v.kinds
          entities := scene.entities.modifyProperties id (·.insertAll v.passed) } = after := by
  cases tracked : scene.entities.find? id with
  | none => simp [delta_untracked offset assignments tracked]
  | some entity =>
    rw [delta_eq offset assignments tracked]
    simp only [ended, Option.some.injEq, exists_eq_left']
    cases (vetAll offset scene.tables entity.cls scene.kinds assignments).fault <;> simp

theorem baseline_ok {offset : Nat} {id : EntityId} {cls : String} {assignments : List Assignment} {scene after : Scene}
    (done : Change.message offset (.baseline id cls assignments) scene = .ok () after) :
    ∃ kinds, after = { scene with
      kinds
      entities := scene.entities.insert id
        ⟨id, cls, SortedMap.insertAll ∅ (named scene.tables.name? assignments)⟩ rfl } := by
  obtain ⟨sound, rfl⟩ := baseline_eq_ok.mp done
  rw [passed_of_sound sound]
  exact ⟨_, rfl⟩

theorem delta_ok {offset : Nat} {id : EntityId} {assignments : List Assignment} {scene after : Scene}
    (done : Change.message offset (.delta id assignments) scene = .ok () after) :
    ∃ entity kinds, scene.entities.find? id = some entity ∧ after = { scene with
      kinds
      entities := scene.entities.modifyProperties id (·.insertAll (named scene.tables.name? assignments)) } := by
  obtain ⟨entity, tracked, sound, rfl⟩ := delta_eq_ok.mp done
  rw [passed_of_sound sound]
  exact ⟨entity, _, tracked, rfl⟩

/-! ## Frames -/

theorem messages_cons_ok {offset : Nat} {first : Message} {rest : List Message} {scene after : Scene} :
    Change.messages offset (first :: rest) scene = .ok () after ↔
      ∃ between, Change.message offset first scene = .ok () between ∧
        Change.messages offset rest between = .ok () after := by
  simp only [Change.messages, Change.bind_apply]
  cases Change.message offset first scene with
  | ok result between => simp
  | error fault between => simp

theorem apply_ok {scene after : Scene} {frame : Frame} :
    scene.apply frame = (none, after) ↔
      ∃ between, Change.messages frame.offset frame.messages scene = .ok () between ∧
        after = { between with tick := some frame.tick } := by
  simp only [apply, Change.frame, Change.bind_apply]
  cases Change.messages frame.offset frame.messages scene with
  | ok result between => simp [Change.modify_apply, eq_comm]
  | error fault between => simp

theorem replay_cons_ok {scene after : Scene} {frame : Frame} {rest : List Frame} :
    scene.replay (frame :: rest) = .ok after ↔
      ∃ between, scene.apply frame = (none, between) ∧ between.replay rest = .ok after := by
  rw [replay]
  split
  case h_1 between applied => simp [applied]
  case h_2 applied => simp [applied]

/-- Frames that do not all apply fail at one of them. -/
theorem replay_error {scene : Scene} {frames : List Frame} {fault : Fault}
    (failed : scene.replay frames = .error fault) :
    ∃ before frame after between, frames = before ++ frame :: after ∧ scene.replay before = .ok between ∧
      (between.apply frame).1 = some fault := by
  induction frames generalizing scene with
  | nil => nomatch failed
  | cons frame rest ih =>
    match applied : scene.apply frame with
    | (some found, left) =>
      rw [replay, applied] at failed
      obtain rfl := Except.error.inj failed
      exact ⟨[], frame, rest, scene, rfl, rfl, by rw [applied]⟩
    | (none, next) =>
      rw [replay, applied] at failed
      obtain ⟨before, frame', after, between, rfl, done, refused⟩ := ih failed
      exact ⟨frame :: before, frame', after, between, rfl, replay_cons_ok.mpr ⟨next, applied, done⟩, refused⟩

theorem follow_of_complete {t : Transcript} (complete : t.fault = none) (scene : Scene) :
    scene.follow t = scene.replay t.frames := by
  unfold follow
  rw [complete]
  cases scene.replay t.frames <;> rfl

theorem follow_ok {scene after : Scene} {t : Transcript} :
    scene.follow t = .ok after ↔ scene.replay t.frames = .ok after ∧ t.fault = none := by
  cases ending : t.fault with
  | none => simp [follow_of_complete ending]
  | some fault =>
    unfold follow
    cases scene.replay t.frames <;> simp [ending, bind, Except.bind, throw, throwThe, MonadExceptOf.throw]

end Scene
end DemoTape
