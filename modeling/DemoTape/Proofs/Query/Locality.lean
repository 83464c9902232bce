/-
# Evaluation goes entity by entity

A walk takes each step from all the places that it has reached, of all the entities, before it takes the next one, and
the entities appear only where a step or the end of the walk expands a collection. `Place.matches` goes the other way:
it takes all the steps from one place before it looks at the next. Both give the same matches in the same order
(`Step.matches_walkAll`). From a place that is of an entity the snapshot is not looked at any more, so that the other
entities do not matter (`Place.matches_of_id`); and the root and a collection lead on to the places of one entity after
the other, whenever it is that they are expanded (`Place.matches_split`).

So a query can be evaluated on each entity alone (`Query.evaluate_local`): what becomes of one entity is no matter of the
matches of the others, and a walk that is nowhere can be left off.
-/
import DemoTape.Proofs.Query.Order
import Mathlib.Data.List.Basic

namespace DemoTape
set_option autoImplicit false

/-! ## Step by step and place by place -/

/-- The matches that some steps lead to from a place. -/
def Place.matches (snapshot : Entities) : List Step → Place → List Match
  | [], place => (place.expand snapshot).filterMap match?
  | step :: rest, place => (step.walk snapshot place).flatMap (Place.matches snapshot rest)

/-- The snapshot of one entity. -/
def Entities.alone (e : Entity) : Entities := (∅ : Entities).add e

theorem Step.walkAll_cons (snapshot : Entities) (places : List Place) (step : Step) (rest : List Step) :
    walkAll snapshot places (step :: rest) = walkAll snapshot (places.flatMap (step.walk snapshot)) rest := rfl

theorem Step.matches_walkAll (snapshot : Entities) (places : List Place) (steps : List Step) :
    ((walkAll snapshot places steps).flatMap (Place.expand snapshot)).filterMap Place.match? =
      places.flatMap (Place.matches snapshot steps) := by
  induction steps generalizing places with
  | nil => exact List.filterMap_flatMap
  | cons step rest ih =>
    rw [walkAll_cons, ih, List.flatMap_assoc]
    rfl

theorem Query.evaluate_eq_matches (q : Query) (snapshot : Entities) :
    q.evaluate snapshot = Place.root.matches snapshot q.steps := by
  rw [evaluate, Step.matches_walkAll, List.flatMap_singleton]

/-! ## Places of an entity -/

namespace Place
variable {snapshot : Entities}

/-- From a place that is of an entity, the snapshot is not looked at. -/
theorem walk_of_id {p : Place} {id : EntityId} (own : p.id? = some id) (snapshot other : Entities) (step : Step) :
    step.walk snapshot p = step.walk other p := by
  cases step with
  | field name => rfl
  | filter condition => rw [Step.walk, Step.walk, expand_of_id own, expand_of_id own]
  | wildcard =>
    cases p with
    | root => cases own
    | collection cls => cases own
    | entity e => rfl
    | value i path v => rfl

theorem matches_of_id {p : Place} {id : EntityId} (own : p.id? = some id) (snapshot other : Entities)
    (steps : List Step) : p.matches snapshot steps = p.matches other steps := by
  induction steps generalizing p with
  | nil => rw [Place.matches, Place.matches, expand_of_id own, expand_of_id own]
  | cons step rest ih =>
    rw [Place.matches, Place.matches, walk_of_id own snapshot other]
    exact List.flatMap_congr fun q mem => ih (Step.walk_id other own step q mem)

/-- Whether a place is of an entity of the snapshot, if it is of an entity at all. -/
def Within (snapshot : Entities) (p : Place) : Prop := ∀ id, p.id? = some id → ∃ e ∈ snapshot.all, e.id = id

theorem mem_ofClass {cls : Option String} {q : Place} (mem : q ∈ ofClass snapshot cls) :
    ∃ e ∈ snapshot.all, q = .entity e := by
  obtain ⟨e, kept, rfl⟩ := List.mem_map.mp mem
  exact ⟨e, (List.mem_filter.mp kept).1, rfl⟩

/-- What the root and the collections are expanded to are entities of the snapshot. -/
theorem mem_expand {p q : Place} (none_own : p.id? = none) (mem : q ∈ p.expand snapshot) :
    ∃ e ∈ snapshot.all, q = .entity e := by
  cases p with
  | root => exact mem_ofClass mem
  | collection cls => exact mem_ofClass mem
  | entity e => cases none_own
  | value i path v => cases none_own

theorem within_expand {p q : Place} (within : p.Within snapshot) (mem : q ∈ p.expand snapshot) :
    q.Within snapshot := by
  cases own : p.id? with
  | some id =>
    rw [expand_of_id own, List.mem_singleton] at mem
    rwa [mem]
  | none =>
    obtain ⟨e, there, rfl⟩ := mem_expand own mem
    rintro _ ⟨⟩
    exact ⟨e, there, rfl⟩

theorem within_walk {p q : Place} {step : Step} (within : p.Within snapshot) (mem : q ∈ step.walk snapshot p) :
    q.Within snapshot := by
  cases own : p.id? with
  | some id =>
    intro found here
    rw [Step.walk_id snapshot own step q mem] at here
    exact within found (own.trans here)
  | none =>
    cases step with
    | filter condition => exact within_expand within (List.mem_filter.mp mem).1
    | field name =>
      cases p with
      | root =>
        rw [Step.walk, member?, Option.toList_some, List.mem_singleton] at mem
        subst mem
        rintro id ⟨⟩
      | collection cls => cases mem
      | entity e => cases own
      | value i path v => cases own
    | wildcard =>
      cases p with
      | root => exact within_expand within mem
      | collection cls => exact within_expand within mem
      | entity e => cases own
      | value i path v => cases own

/-- A match is of an entity of the snapshot. -/
theorem mem_matches {p : Place} {steps : List Step} (within : p.Within snapshot) {m : Match}
    (mem : m ∈ p.matches snapshot steps) : ∃ e ∈ snapshot.all, e.id = m.entity := by
  induction steps generalizing p with
  | nil =>
    obtain ⟨q, reached, found⟩ := List.mem_filterMap.mp mem
    refine within_expand within reached m.entity ?_
    cases q <;> cases found <;> rfl
  | cons step rest ih =>
    obtain ⟨q, reached, mem⟩ := List.mem_flatMap.mp mem
    exact ih (within_walk within reached) mem

/-! ## Entity by entity -/

theorem all_alone (e : Entity) : (Entities.alone e).all = [e] := rfl

theorem ofClass_split (snapshot : Entities) (cls : Option String) :
    ofClass snapshot cls = snapshot.all.flatMap fun e => ofClass (.alone e) cls := by
  unfold ofClass
  induction snapshot.all with
  | nil => rfl
  | cons e rest ih =>
    rw [List.flatMap_cons, ← ih, all_alone]
    by_cases kept : cls.all (e.cls = ·) <;> simp [kept]

theorem expand_split {p : Place} (none_own : p.id? = none) (snapshot : Entities) :
    p.expand snapshot = snapshot.all.flatMap fun e => p.expand (.alone e) := by
  cases p with
  | root => exact ofClass_split snapshot none
  | collection cls => exact ofClass_split snapshot cls
  | entity e => cases none_own
  | value i path v => cases none_own

/-- A step that expands a place leads on entity by entity. -/
theorem matches_expand {p : Place} (none_own : p.id? = none) (chosen : Place → Bool) (snapshot : Entities)
    (rest : List Step) :
    ((p.expand snapshot).filter chosen).flatMap (Place.matches snapshot rest) =
      snapshot.all.flatMap fun e =>
        ((p.expand (.alone e)).filter chosen).flatMap (Place.matches (.alone e) rest) := by
  calc ((p.expand snapshot).filter chosen).flatMap (Place.matches snapshot rest)
      = snapshot.all.flatMap fun e =>
          ((p.expand (.alone e)).filter chosen).flatMap (Place.matches snapshot rest) := by
        rw [expand_split none_own, List.filter_flatMap, List.flatMap_assoc]
    _ = _ := List.flatMap_congr fun e _ => ?_
  have moved : ∀ q ∈ (p.expand (.alone e)).filter chosen,
      q.matches snapshot rest = q.matches (.alone e) rest := by
    intro q mem
    obtain ⟨f, -, rfl⟩ := mem_expand none_own (List.mem_filter.mp mem).1
    exact matches_of_id rfl snapshot (.alone e) rest
  exact List.flatMap_congr moved

/-- The root and the collections lead to the matches of one entity after the other, after any steps. -/
theorem matches_split {p : Place} (none_own : p.id? = none) (snapshot : Entities) (steps : List Step) :
    p.matches snapshot steps = snapshot.all.flatMap fun e => p.matches (.alone e) steps := by
  induction steps generalizing p with
  | nil =>
    simp only [Place.matches]
    rw [expand_split none_own, List.filterMap_flatMap]
  | cons step rest ih =>
    -- the root and a collection are expanded by all steps but one to a member, which only the root has
    have expanded (every : ∀ places : Entities, step.walk places p = p.expand places) :
        p.matches snapshot (step :: rest) =
          snapshot.all.flatMap fun e => p.matches (.alone e) (step :: rest) := by
      have all := matches_expand none_own (fun _ => true) snapshot rest
      simpa only [Place.matches, every, List.filter_true] using all
    cases step with
    | filter condition => exact matches_expand none_own (·.meets condition) snapshot rest
    | wildcard =>
      cases p with
      | root => exact expanded fun _ => rfl
      | collection cls => exact expanded fun _ => rfl
      | entity e => cases none_own
      | value i path v => cases none_own
    | field name =>
      cases p with
      | root => simpa [Place.matches, Step.walk, member?] using ih rfl
      | collection cls => simp [Place.matches, Step.walk, member?]
      | entity e => cases none_own
      | value i path v => cases none_own

theorem entity_of_mem_matches {e : Entity} {p : Place} {steps : List Step} (none_own : p.id? = none)
    {m : Match} (mem : m ∈ p.matches (.alone e) steps) : m.entity = e.id := by
  obtain ⟨f, there, own⟩ := mem_matches (by rw [Within, none_own]; exact nofun) mem
  rw [all_alone, List.mem_singleton] at there
  rw [← own, there]

end Place

/-! ## Walks that stop -/

namespace Step

/-- A walk that stops as soon as it is nowhere. -/
def walkStopping (snapshot : Entities) (places : List Place) : List Step → List Place
  | [] => places
  | step :: rest =>
    let reached := places.flatMap (step.walk snapshot)
    if reached.isEmpty then reached else walkStopping snapshot reached rest

theorem walkAll_nil (snapshot : Entities) (steps : List Step) : walkAll snapshot [] steps = [] := by
  induction steps with
  | nil => rfl
  | cons step rest ih => exact ih

theorem walkStopping_eq (snapshot : Entities) (places : List Place) (steps : List Step) :
    walkStopping snapshot places steps = walkAll snapshot places steps := by
  induction steps generalizing places with
  | nil => rfl
  | cons step rest ih =>
    rw [walkStopping, walkAll_cons]
    split
    case isTrue nowhere => rw [List.isEmpty_iff.mp nowhere, walkAll_nil]
    case isFalse => exact ih _

end Step

/-- The matches that a walk finds which stops as soon as it is nowhere. -/
def Query.evaluateStopping (q : Query) (snapshot : Entities) : List Match :=
  ((Step.walkStopping snapshot [.root] q.steps).flatMap (Place.expand snapshot)).filterMap Place.match?

/-! ## Queries -/

namespace Query
variable (q : Query)

theorem evaluate_split (snapshot : Entities) :
    q.evaluate snapshot = snapshot.all.flatMap fun e => q.evaluate (.alone e) := by
  rw [evaluate_eq_matches, Place.matches_split rfl]
  exact List.flatMap_congr fun e _ => (q.evaluate_eq_matches (.alone e)).symm

theorem entity_of_mem_evaluate {q : Query} {e : Entity} {m : Match} (mem : m ∈ q.evaluate (.alone e)) :
    m.entity = e.id :=
  Place.entity_of_mem_matches rfl (q.evaluate_eq_matches (.alone e) ▸ mem)

/-- The matches of an entity alone are kept or dropped all together. -/
theorem filter_evaluate_alone (keep : EntityId → Bool) (e : Entity) :
    (q.evaluate (.alone e)).filter (fun m => keep m.entity) = if keep e.id then q.evaluate (.alone e) else [] := by
  split
  case isTrue kept =>
    refine List.filter_eq_self.mpr fun m mem => ?_
    rw [entity_of_mem_evaluate mem, kept]
  case isFalse dropped =>
    refine List.filter_eq_nil_iff.mpr fun m mem => ?_
    rwa [entity_of_mem_evaluate mem]

/-- The matches of some entities are those of the snapshot with these entities. -/
theorem filter_evaluate (keep : EntityId → Bool) (snapshot : Entities) :
    (q.evaluate snapshot).filter (fun m => keep m.entity) =
      (snapshot.all.filter fun e => keep e.id).flatMap fun e => q.evaluate (.alone e) := by
  rw [evaluate_split, List.filter_flatMap]
  induction snapshot.all with
  | nil => rfl
  | cons e rest ih =>
    rw [List.flatMap_cons, ih, filter_evaluate_alone, List.filter_cons]
    split
    · rfl
    · rfl

theorem evaluate_erase (snapshot : Entities) (id : EntityId) :
    q.evaluate (snapshot.erase id) = (q.evaluate snapshot).filter (·.entity ≠ id) := by
  rw [filter_evaluate q (· ≠ id), evaluate_split, Entities.all_erase]

/-- **Evaluation goes entity by entity.** The matches of a snapshot are those of its entities alone, one after the
other in the order of their ids, and so in order. Removing an entity takes its own matches away and leaves the others
as they are; putting one in, new or in place of another, leaves those of the others as they are, and its own are those
of it alone. And a walk that is nowhere leads to no match. -/
theorem evaluate_local (snapshot : Entities) :
    snapshot.entries.Pairwise (fun a b => a.1 < b.1) ∧
    q.evaluate snapshot = (snapshot.entries.flatMap fun entry => q.evaluate (.alone entry.2)) ∧
    (q.evaluate snapshot).Pairwise (fun a b => a.entity ≤ b.entity) ∧
    (∀ id, q.evaluate (snapshot.erase id) = (q.evaluate snapshot).filter (·.entity ≠ id)) ∧
    (∀ e,
      (q.evaluate (snapshot.add e)).filter (·.entity ≠ e.id) = (q.evaluate snapshot).filter (·.entity ≠ e.id) ∧
      (q.evaluate (snapshot.add e)).filter (·.entity = e.id) = q.evaluate (.alone e)) ∧
    q.evaluateStopping snapshot = q.evaluate snapshot := by
  refine ⟨?_, ?_, q.evaluate_ordered snapshot, q.evaluate_erase snapshot, ?_, ?_⟩
  · exact snapshot.ascending.imp compareOfLessAndEq_eq_lt.mp
  · rw [evaluate_split, Entities.all, List.flatMap_map]
  · intro e
    constructor
    · rw [← evaluate_erase, ← evaluate_erase, Entities.add, Entities.erase_insert]
    · rw [filter_evaluate q (· = e.id), Entities.filter_id, Entities.add, Entities.find?_insert, if_pos rfl]
      exact List.flatMap_singleton _ _
  · rw [evaluateStopping, Step.walkStopping_eq, evaluate]

end Query
end DemoTape
