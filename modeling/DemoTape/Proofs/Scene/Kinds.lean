/-
# Kinds

A property of a class keeps the kind that was seen first, along any run of frames, those that fail included.
What was seen is the list of checks: each is a value that was to go to a property. A frame stops at its first check
that differs from the first of its property, and at a message that fails for another reason.

`Keeps` says that the kinds of a scene are those of the first checks and that all that is stored is of these
kinds. Every message keeps it, whether it ends well or not. `Judged` says how the checks of a frame and its fault
go together. `kinds_kept` has both for every run.
-/
import DemoTape.Proofs.Scene.Changes

namespace DemoTape
set_option autoImplicit false

/-- A value of some kind that is to go to a property. -/
structure Check where
  ref : PropertyRef
  kind : Kind
  deriving DecidableEq, Repr

namespace Check

/-! ## What is checked -/

/-- The kind in the first check of a property. -/
def first (checks : List Check) (ref : PropertyRef) : Option Kind := (checks.find? (·.ref = ref)).map Check.kind

/-- The checks that some assignments make behind those of the past: up to one that differs from the first of its
property, or to a key that stands for no name. -/
def ofAssignments (tables : StringTables) (cls : String) : (past : List Check) → List Assignment → List Check
  | _, [] => []
  | past, assignment :: rest =>
    match tables.name? assignment.key with
    | none => []
    | some name =>
      let check : Check := ⟨⟨cls, name⟩, assignment.value.kind⟩
      if first (past ++ [check]) check.ref = some check.kind then
        check :: ofAssignments tables cls (past ++ [check]) rest
      else [check]

def ofMessage (past : List Check) (scene : Scene) : Message → List Check
  | .baseline _ cls assignments => ofAssignments scene.tables cls past assignments
  | .delta id assignments =>
    match scene.entities.find? id with
    | some entity => ofAssignments scene.tables entity.cls past assignments
    | none => []
  | _ => []

/-- The checks that some messages make, up to one that fails. -/
def ofMessages (offset : Nat) (past : List Check) (scene : Scene) : List Message → List Check
  | [] => []
  | m :: rest =>
    let made := ofMessage past scene m
    match Scene.Change.message offset m scene with
    | .ok () scene => made ++ ofMessages offset (past ++ made) scene rest
    | .error _ _ => made

def ofFrame (past : List Check) (scene : Scene) (frame : Frame) : List Check :=
  ofMessages frame.offset past scene frame.messages

theorem first_append (earlier later : List Check) (ref : PropertyRef) :
    first (earlier ++ later) ref = (first earlier ref).or (first later ref) := by
  unfold first
  rw [List.find?_append]
  cases earlier.find? (·.ref = ref) <;> rfl

theorem first_of_append {earlier later : List Check} {ref : PropertyRef} {kind : Kind}
    (seen : first earlier ref = some kind) : first (earlier ++ later) ref = some kind := by
  rw [first_append, seen, Option.some_or]

@[simp] theorem first_singleton (check : Check) (ref : PropertyRef) :
    first [check] ref = if check.ref = ref then some check.kind else none := by
  by_cases here : check.ref = ref <;> simp [first, here]

/-! ## Checks and faults -/

/-- Behind those of the past, each check is of the kind that its property had first. -/
def Fit (past checks : List Check) : Prop := ∀ check ∈ checks, first (past ++ checks) check.ref = some check.kind

/-- How some checks behind those of the past go together with the fault that ended them: a change of kind is
reported where the last one, and no other, differs from the first of its property. -/
inductive Judged (past : List Check) : List Check → Option Fault → Prop
  | fit {checks : List Check} {fault : Option Fault} (fit : Fit past checks)
      (other : ∀ cls property expected found, fault ≠ some (.kindChange cls property expected found)) :
      Judged past checks fault
  | refused {front : List Check} {ref : PropertyRef} {expected found : Kind} (fit : Fit past front)
      (seen : first (past ++ front) ref = some expected) (change : expected ≠ found) :
      Judged past (front ++ [⟨ref, found⟩]) (some (.kindChange ref.cls ref.property expected found))

theorem fit_nil (past : List Check) : Fit past [] := nofun

theorem fit_singleton {past : List Check} {check : Check}
    (agrees : first (past ++ [check]) check.ref = some check.kind) : Fit past [check] := by
  intro other member
  rw [List.mem_singleton.mp member]
  exact agrees

theorem Fit.append {past earlier later : List Check} (fits : Fit past earlier) (more : Fit (past ++ earlier) later) :
    Fit past (earlier ++ later) := by
  intro check member
  rw [← List.append_assoc]
  rcases List.mem_append.mp member with member | member
  · exact first_of_append (fits check member)
  · exact more check member

theorem Fit.of_judged {past checks : List Check} (judged : Judged past checks none) : Fit past checks := by
  cases judged with
  | fit fit other => exact fit

theorem Judged.append {past earlier later : List Check} {fault : Option Fault} (fits : Fit past earlier)
    (judged : Judged (past ++ earlier) later fault) : Judged past (earlier ++ later) fault := by
  cases judged with
  | fit more other => exact .fit (fits.append more) other
  | refused more seen change =>
    rw [← List.append_assoc]
    rw [List.append_assoc] at seen
    exact .refused (fits.append more) seen change

/-- A change of kind is reported exactly if the last check differs from the first of its property. -/
theorem Judged.kindChange_iff {past checks : List Check} {fault : Option Fault} (judged : Judged past checks fault)
    (cls property : String) (expected found : Kind) :
    fault = some (.kindChange cls property expected found) ↔
      ∃ front, checks = front ++ [⟨⟨cls, property⟩, found⟩] ∧
        first (past ++ front) ⟨cls, property⟩ = some expected ∧ expected ≠ found := by
  cases judged with
  | fit fit other =>
    constructor
    · intro same
      exact absurd same (other _ _ _ _)
    · rintro ⟨front, rfl, seen, change⟩
      have last := fit ⟨⟨cls, property⟩, found⟩ (by simp)
      rw [← List.append_assoc, first_of_append seen] at last
      exact absurd (Option.some.inj last) change
  | refused fit seen change =>
    constructor
    · intro same
      cases same
      exact ⟨_, rfl, seen, change⟩
    · rintro ⟨front, same, again, -⟩
      obtain ⟨rfl, last⟩ := List.append_inj' same rfl
      cases last
      rw [seen] at again
      cases again
      rfl

/-- A check agrees with the first of its property, or it is the one that the fault is about. -/
theorem Judged.agrees_or_refused {past checks : List Check} {fault : Option Fault} (judged : Judged past checks fault)
    {check : Check} (member : check ∈ checks) :
    first (past ++ checks) check.ref = some check.kind ∨
      ∃ expected, fault = some (.kindChange check.ref.cls check.ref.property expected check.kind) := by
  cases judged with
  | fit fit other => exact .inl (fit check member)
  | refused fit seen change =>
    rcases List.mem_append.mp member with earlier | last
    · rw [← List.append_assoc]
      exact .inl (first_of_append (fit check earlier))
    · obtain rfl := List.mem_singleton.mp last
      exact .inr ⟨_, rfl⟩

end Check

/-! ## Assignments -/

namespace Scene
open Check

/-- The kinds are those of the first checks. -/
def Recorded (checks : List Check) (kinds : Kinds) : Prop := ∀ ref, kinds.find? ref = first checks ref

variable {past : List Check} {kinds after : Kinds} {offset : Nat} {tables : StringTables}

theorem recorded_seen {ref : PropertyRef} {seen found : Kind} (recorded : Recorded past kinds)
    (there : kinds.find? ref = some seen) : Recorded (past ++ [⟨ref, found⟩]) kinds := by
  intro ref'
  rw [first_append, first_singleton, recorded]
  split
  case isTrue here =>
    rw [← here, ← recorded, there]
    rfl
  case isFalse => rw [Option.or_none]

theorem recorded_insert {ref : PropertyRef} {found : Kind} (recorded : Recorded past kinds)
    (absent : kinds.find? ref = none) : Recorded (past ++ [⟨ref, found⟩]) (kinds.insert ref found) := by
  intro ref'
  rw [first_append, first_singleton, SortedMap.find?_insert]
  by_cases here : ref' = ref
  · rw [if_pos here, if_pos here.symm, here, ← recorded, absent, Option.none_or]
  · rw [if_neg here, if_neg (Ne.symm here), Option.or_none, recorded]

/-- A value that is let through has the kind that its property had first. -/
theorem recorded_of_admitted {ref : PropertyRef} {found : Kind} (recorded : Recorded past kinds)
    (done : admitted kinds ref found = .ok after) :
    first (past ++ [⟨ref, found⟩]) ref = some found ∧ Recorded (past ++ [⟨ref, found⟩]) after := by
  unfold admitted at done
  cases there : kinds.find? ref with
  | none =>
    simp only [there, Except.ok.injEq] at done
    subst done
    have inserted : Recorded (past ++ [⟨ref, found⟩]) (kinds.insert ref found) := recorded_insert recorded there
    exact ⟨by rw [← inserted, SortedMap.find?_insert, if_pos rfl], inserted⟩
  | some expected =>
    simp only [there] at done
    split at done
    case isTrue => cases done
    case isFalse same =>
      obtain rfl := Except.ok.inj done
      obtain rfl := Decidable.of_not_not same
      exact ⟨first_of_append (by rw [← recorded, there]), recorded_seen recorded there⟩

/-- A value that is refused is of another kind than its property had first. -/
theorem seen_of_refused {ref : PropertyRef} {found : Kind} {fault : Fault} (recorded : Recorded past kinds)
    (refused : admitted kinds ref found = .error fault) :
    ∃ expected, first past ref = some expected ∧ expected ≠ found ∧
      fault = .kindChange ref.cls ref.property expected found ∧ Recorded (past ++ [⟨ref, found⟩]) kinds := by
  unfold admitted at refused
  cases there : kinds.find? ref with
  | none => simp only [there, reduceCtorEq] at refused
  | some expected =>
    simp only [there] at refused
    split at refused
    case isTrue change =>
      exact ⟨expected, by rw [← recorded, there], change, (Except.error.inj refused).symm, recorded_seen recorded there⟩
    case isFalse => cases refused

/-- What vetting some assignments does to the kinds, and what it lets through. -/
theorem recorded_vetAll (offset : Nat) (tables : StringTables) (cls : String) (assignments : List Assignment)
    (recorded : Recorded past kinds) :
    let v := vetAll offset tables cls kinds assignments
    let made := ofAssignments tables cls past assignments
    Recorded (past ++ made) v.kinds ∧ Judged past made v.fault ∧
      ∀ name value, (name, value) ∈ v.passed → first (past ++ made) ⟨cls, name⟩ = some value.kind := by
  -- the first assignment makes one check more for the rest, and its kind is recorded at the same time
  induction assignments generalizing past kinds with
  | nil =>
    refine ⟨?_, .fit (fit_nil past) nofun, nofun⟩
    rw [ofAssignments, List.append_nil]
    exact recorded
  | cons assignment rest ih =>
    cases called : tables.name? assignment.key with
    | none =>
      obtain ⟨index, stopped⟩ := @vetAll_unnamed offset tables cls kinds assignment rest called
      simp only [stopped, ofAssignments, called, List.append_nil]
      exact ⟨recorded, .fit (fit_nil past) nofun, nofun⟩
    | some name =>
      cases passed : admitted kinds ⟨cls, name⟩ assignment.value.kind with
      | error fault =>
        obtain ⟨expected, seen, change, rfl, kept⟩ := seen_of_refused recorded passed
        have differs : first (past ++ [⟨⟨cls, name⟩, assignment.value.kind⟩]) ⟨cls, name⟩ ≠ some assignment.value.kind := by
          rw [first_of_append seen]
          intro same
          exact change (Option.some.inj same)
        simp only [vetAll_refused called passed, ofAssignments, called, if_neg differs]
        exact ⟨kept, .refused (fit_nil past) (by rwa [List.append_nil]) change, nofun⟩
      | ok after =>
        obtain ⟨agrees, recorded⟩ := recorded_of_admitted recorded passed
        obtain ⟨kinds, judged, stored⟩ := ih recorded
        simp only [vetAll_passed called passed, ofAssignments, called, if_pos agrees]
        rw [← List.singleton_append, ← List.append_assoc]
        refine ⟨kinds, .append (fit_singleton agrees) judged, ?_⟩
        intro name' value member
        rcases List.mem_cons.mp member with same | member
        · cases same
          exact first_of_append agrees
        · exact stored name' value member

/-! ## Scenes -/

/-- A value is there under the name of a property of some entity of a class. -/
def Stores (scene : Scene) (cls name : String) (value : Value) : Prop :=
  ∃ id entity, scene.entities.find? id = some entity ∧ entity.cls = cls ∧ entity.properties.find? name = some value

/-- The kinds of a scene are those of the first checks, and what it stores is of these kinds. -/
structure Keeps (checks : List Check) (scene : Scene) : Prop where
  recorded : Recorded checks scene.kinds
  stored : ∀ {cls name value}, scene.Stores cls name value → first checks ⟨cls, name⟩ = some value.kind

variable {made : List Check} {scene : Scene}

theorem keeps_empty : Keeps [] .empty where
  recorded _ := rfl
  stored := by
    rintro cls name value ⟨id, entity, found, -⟩
    simp [empty] at found

/-- Changes to other parts of a scene do not matter. -/
theorem Keeps.congr {scene' : Scene} (keeps : Keeps past scene) (kinds : scene'.kinds = scene.kinds)
    (entities : scene'.entities = scene.entities) : Keeps past scene' where
  recorded := kinds ▸ keeps.recorded
  stored := by
    rintro cls name value ⟨id, entity, found, same, assigned⟩
    exact keeps.stored ⟨id, entity, entities ▸ found, same, assigned⟩

/-- Later checks are never the first of a property that has something stored. -/
theorem Keeps.more (keeps : Keeps past scene) (recorded : Recorded (past ++ made) kinds) :
    Keeps (past ++ made) { scene with kinds } where
  recorded := recorded
  stored there := first_of_append (keeps.stored there)

/-- An entity may be replaced or removed, if the properties of the new one are of these kinds. -/
theorem Keeps.put {id : EntityId} {new : Option Entity} {entities : Entities} (keeps : Keeps past scene)
    (put : scene.entities.Put id new entities)
    (good : ∀ entity ∈ new, ∀ name value, entity.properties.find? name = some value →
      first past ⟨entity.cls, name⟩ = some value.kind) :
    Keeps past { scene with entities } where
  recorded := keeps.recorded
  stored := by
    rintro cls name value ⟨id', entity, found, rfl, assigned⟩
    rw [put id'] at found
    split at found
    case isTrue => exact good entity found name value assigned
    case isFalse => exact keeps.stored ⟨id', entity, found, rfl, assigned⟩

/-- The fault and the scene that a change leaves. -/
def outcome : EStateM.Result Fault Scene Unit → Option Fault × Scene
  | .ok () scene => (none, scene)
  | .error fault scene => (some fault, scene)

theorem outcome_ended (fault : Option Fault) (scene : Scene) : outcome (ended fault () scene) = (fault, scene) := by
  cases fault <;> rfl

theorem keeps_baseline (offset : Nat) (id : EntityId) (cls : String) (assignments : List Assignment)
    (keeps : Keeps past scene) :
    let made := ofMessage past scene (.baseline id cls assignments)
    let result := outcome (Change.message offset (.baseline id cls assignments) scene)
    Keeps (past ++ made) result.2 ∧ Judged past made result.1 := by
  obtain ⟨recorded, judged, passed⟩ := recorded_vetAll offset scene.tables cls assignments keeps.recorded
  simp only [baseline_eq, ofMessage]
  split
  case h_1 sound =>
    rw [sound] at judged
    refine ⟨(keeps.more recorded).put (scene.entities.put_insert id ⟨id, cls, _⟩ rfl) ?_, judged⟩
    rintro _ ⟨⟩ name value assigned
    rw [SortedMap.find?_insertAll, SortedMap.find?_empty, Option.or_none] at assigned
    exact passed name value (mem_of_lastOf assigned)
  case h_2 fault refused =>
    rw [refused] at judged
    exact ⟨keeps.more recorded, judged⟩

theorem keeps_delta (offset : Nat) (id : EntityId) (assignments : List Assignment) (keeps : Keeps past scene) :
    let made := ofMessage past scene (.delta id assignments)
    let result := outcome (Change.message offset (.delta id assignments) scene)
    Keeps (past ++ made) result.2 ∧ Judged past made result.1 := by
  cases tracked : scene.entities.find? id with
  | none =>
    simp only [delta_untracked offset assignments tracked, ofMessage, tracked, List.append_nil, outcome]
    exact ⟨keeps, .fit (fit_nil past) nofun⟩
  | some entity =>
    obtain ⟨recorded, judged, passed⟩ := recorded_vetAll offset scene.tables entity.cls assignments keeps.recorded
    simp only [delta_eq offset assignments tracked, ofMessage, tracked, outcome_ended]
    refine ⟨(keeps.more recorded).put (Entities.put_modifyProperties tracked _) ?_, judged⟩
    rintro _ ⟨⟩ name value assigned
    rw [SortedMap.find?_insertAll, Option.or_eq_some_iff] at assigned
    rcases assigned with new | ⟨-, old⟩
    · exact passed name value (mem_of_lastOf new)
    · exact first_of_append (keeps.stored ⟨id, entity, tracked, rfl, old⟩)

/-- A message keeps the kinds, whether it ends well or not, and its fault goes with its checks. -/
theorem keeps_message (offset : Nat) (m : Message) (keeps : Keeps past scene) :
    let made := ofMessage past scene m
    let result := outcome (Change.message offset m scene)
    Keeps (past ++ made) result.2 ∧ Judged past made result.1 := by
  -- a message without assignments makes no check and ends well
  have quiet {after : Scene} (keeps : Keeps past after) : Keeps (past ++ []) after ∧ Judged past [] none :=
    ⟨by rwa [List.append_nil], .fit (fit_nil past) nofun⟩
  cases m with
  | baseline id cls assignments => exact keeps_baseline offset id cls assignments keeps
  | delta id assignments => exact keeps_delta offset id assignments keeps
  | remove id => exact quiet (keeps.put (scene.entities.put_erase id) fun _ absent => nomatch absent)
  | table name entries => exact quiet (keeps.congr rfl rfl)
  | command sequence input => exact quiet (keeps.congr rfl rfl)
  | other kind length => exact quiet keeps

/-! ## Runs -/

theorem keeps_messages (offset : Nat) (ms : List Message) (keeps : Keeps past scene) :
    let made := ofMessages offset past scene ms
    let result := outcome (Change.messages offset ms scene)
    Keeps (past ++ made) result.2 ∧ Judged past made result.1 := by
  induction ms generalizing past scene with
  | nil => exact ⟨by rwa [ofMessages, List.append_nil], .fit (fit_nil past) nofun⟩
  | cons m rest ih =>
    -- only a message that ends well, and so with checks that all fit, has others behind it
    obtain ⟨kept, judged⟩ := keeps_message offset m keeps
    simp only [ofMessages, Change.messages, Change.bind_apply]
    cases one : Change.message offset m scene with
    | ok result between =>
      rw [one] at kept judged
      obtain ⟨kept, others⟩ := ih kept
      rw [← List.append_assoc]
      exact ⟨kept, .append (Fit.of_judged judged) others⟩
    | error fault between =>
      rw [one] at kept judged
      exact ⟨kept, judged⟩

theorem keeps_apply (frame : Frame) (keeps : Keeps past scene) :
    Keeps (past ++ ofFrame past scene frame) (scene.apply frame).2 ∧
      Judged past (ofFrame past scene frame) (scene.apply frame).1 := by
  obtain ⟨kept, judged⟩ := keeps_messages frame.offset frame.messages keeps
  unfold ofFrame
  simp only [apply, Change.frame, Change.bind_apply]
  cases all : Change.messages frame.offset frame.messages scene with
  | ok result after =>
    rw [all] at kept judged
    exact ⟨kept.congr rfl rfl, judged⟩
  | error fault after =>
    rw [all] at kept judged
    exact ⟨kept, judged⟩

/-- A scene and the checks that were made on the way to it. -/
structure Run where
  scene : Scene
  checks : List Check

/-- One more frame, whether it fails or not. -/
def Run.apply (run : Run) (frame : Frame) : Run :=
  ⟨(run.scene.apply frame).2, run.checks ++ ofFrame run.checks run.scene frame⟩

/-- Some frames on an empty scene, those behind one that fails included. -/
def run (frames : List Frame) : Run := frames.foldl Run.apply ⟨.empty, []⟩

theorem run_append (frames more : List Frame) : run (frames ++ more) = more.foldl Run.apply (run frames) :=
  List.foldl_append

theorem Keeps.foldl {r : Run} (keeps : Keeps r.checks r.scene) (frames : List Frame) :
    Keeps (frames.foldl Run.apply r).checks (frames.foldl Run.apply r).scene := by
  induction frames generalizing r with
  | nil => exact keeps
  | cons frame rest ih => exact ih (keeps_apply frame keeps).1

theorem keeps_run (frames : List Frame) : Keeps (run frames).checks (run frames).scene :=
  keeps_empty.foldl frames

/-- What was checked first stays first. -/
theorem first_foldl {r : Run} {ref : PropertyRef} {kind : Kind} (seen : first r.checks ref = some kind)
    (frames : List Frame) : first (frames.foldl Run.apply r).checks ref = some kind := by
  induction frames generalizing r with
  | nil => exact seen
  | cons frame rest ih => exact ih (first_of_append seen)

/-- **A property of a class keeps its kind**, and a frame is refused exactly for a value of another kind. -/
theorem kinds_kept (frames : List Frame) :
    (∀ cls name value, (run frames).scene.Stores cls name value →
      first (run frames).checks ⟨cls, name⟩ = some value.kind) ∧
    (∀ more cls name value value', (run frames).scene.Stores cls name value →
      (run (frames ++ more)).scene.Stores cls name value' → value.kind = value'.kind) ∧
    ∀ frame, let made := ofFrame (run frames).checks (run frames).scene frame
      (∀ cls name expected found,
        ((run frames).scene.apply frame).1 = some (.kindChange cls name expected found) ↔
          ∃ front, made = front ++ [⟨⟨cls, name⟩, found⟩] ∧
            first ((run frames).checks ++ front) ⟨cls, name⟩ = some expected ∧ expected ≠ found) ∧
      (∀ check ∈ made, first ((run frames).checks ++ made) check.ref = some check.kind ∨
        ∃ expected, ((run frames).scene.apply frame).1 =
          some (.kindChange check.ref.cls check.ref.property expected check.kind)) ∧
      ∀ cls name expected kind, first (run frames).checks ⟨cls, name⟩ = some kind →
        ((run frames).scene.apply frame).1 ≠ some (.kindChange cls name expected kind) := by
  have keeps := keeps_run frames
  refine ⟨fun cls name value => keeps.stored, ?_, ?_⟩
  · intro more cls name value value' there later
    have seen := first_foldl (keeps.stored there) more
    rw [← run_append, (keeps_run (frames ++ more)).stored later] at seen
    exact (Option.some.inj seen).symm
  · intro frame
    have judged := (keeps_apply frame keeps).2
    refine ⟨judged.kindChange_iff, fun check => judged.agrees_or_refused, ?_⟩
    intro cls name expected kind recorded refused
    obtain ⟨front, -, seen, change⟩ := (judged.kindChange_iff ..).mp refused
    rw [first_of_append recorded] at seen
    exact change (Option.some.inj seen).symm

/-- Frames of which the second fails: the kind of an age is seen there, but no age is ever stored. -/
def unripe : List Frame := [
  { tick := 5, offset := 1072, messages := [.baseline 1 "tree" [⟨.name "hp", .integer 3⟩]] },
  { tick := 6, offset := 1100, messages := [
      .table "propnames" [⟨0, "hp"⟩], .remove 1, .baseline 1 "rock" [⟨.slot 0, .boolean true⟩],
      .baseline 2 "tree" [⟨.name "age", .text "old"⟩, ⟨.slot 0, .boolean true⟩]] },
  { tick := 7, offset := 1200, messages := [.baseline 2 "tree" [⟨.slot 0, .integer 4⟩]] }]

theorem kinds_kept_unripe :
    (run unripe).scene.Stores "tree" "hp" (.integer 4) ∧
      first (run unripe).checks ⟨"tree", "hp"⟩ = some .integer ∧
      first (run unripe).checks ⟨"rock", "hp"⟩ = some .boolean ∧
      ((run unripe).scene.apply ⟨8, [.delta 2 [⟨.slot 0, .integer 5⟩, ⟨.name "age", .integer 90⟩]], 1300⟩).1 =
        some (.kindChange "tree" "age" .text .integer) := by
  have there : (run unripe).scene.Stores "tree" "hp" (.integer 4) := ⟨2, _, rfl, rfl, rfl⟩
  have rock : (run unripe).scene.Stores "rock" "hp" (.boolean true) := ⟨1, _, rfl, rfl, rfl⟩
  obtain ⟨stored, -, refused⟩ := kinds_kept unripe
  refine ⟨there, stored _ _ _ there, stored _ _ _ rock, ?_⟩
  exact ((refused _).1 _ _ _ _).mpr ⟨[⟨⟨"tree", "hp"⟩, .integer⟩], rfl, rfl, by decide⟩

end Scene
end DemoTape
