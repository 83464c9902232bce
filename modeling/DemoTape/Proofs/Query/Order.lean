/-
# Matches come in the order of their entities

The entities of a snapshot are kept in the order of their ids, and no step of a query disturbs it: from a place that
is of an entity, a step leads to places of the same entity (`walk_id`), and from the root or a collection it leads to
one place or to entities in their order (`walk_before`). So places that are of entities in order stay so, step by
step (`walkAll_before`), and the matches of a query are in order (`evaluate_ordered`).
-/
import DemoTape.Query.Evaluation

namespace DemoTape
set_option autoImplicit false

namespace Place

/-- The entity that a place is of. -/
def id? : Place → Option EntityId
  | .entity e => some e.id
  | .value id _ _ => some id
  | _ => none

/-- Whether both places are of entities, the second of the same one or of a later one. -/
def Before (p q : Place) : Prop := ∃ i j, p.id? = some i ∧ q.id? = some j ∧ i ≤ j

theorem pairwise_of_id {places : List Place} {id : EntityId} (each : ∀ p ∈ places, p.id? = some id) :
    places.Pairwise Before := by
  induction places with
  | nil => exact .nil
  | cons p rest ih =>
    obtain ⟨here, others⟩ := List.forall_mem_cons.mp each
    exact .cons (fun q mem => ⟨id, id, here, others q mem, UInt32.le_refl id⟩) (ih others)

/-! ## Entities in order -/

theorem ofClass_before (snapshot : Entities) (cls : Option String) : (ofClass snapshot cls).Pairwise Before := by
  have entities := snapshot.all_ascending.sublist (List.filter_sublist (p := fun e => cls.all (e.cls = ·)))
  exact List.pairwise_map.mpr (entities.imp fun {a b} less => ⟨a.id, b.id, rfl, rfl, UInt32.le_of_lt less⟩)

theorem expand_of_id {p : Place} {id : EntityId} (own : p.id? = some id) (snapshot : Entities) :
    p.expand snapshot = [p] := by
  cases p with
  | root => cases own
  | collection cls => cases own
  | entity => rfl
  | value => rfl

theorem expand_before (snapshot : Entities) (p : Place) : (p.expand snapshot).Pairwise Before := by
  cases p with
  | root => exact ofClass_before snapshot none
  | collection cls => exact ofClass_before snapshot cls
  | entity => exact List.pairwise_singleton _ _
  | value => exact List.pairwise_singleton _ _

end Place

/-! ## Steps -/

open Place

theorem Place.member?_id {p q : Place} {name : String} {id : EntityId} (found : p.member? name = some q)
    (own : p.id? = some id) : q.id? = some id := by
  cases p with
  | root => cases own
  | collection cls => cases own
  | entity e =>
    obtain ⟨v, -, rfl⟩ := Option.map_eq_some_iff.mp found
    exact own
  | value i path v =>
    cases v with
    | vector v =>
      obtain ⟨x, -, rfl⟩ := Option.map_eq_some_iff.mp found
      exact own
    | integer | float | text | boolean => cases found

namespace Step
variable (snapshot : Entities)

/-- A step stays within an entity. -/
theorem walk_id {p : Place} {id : EntityId} (own : p.id? = some id) (step : Step) :
    ∀ q ∈ step.walk snapshot p, q.id? = some id := by
  intro q mem
  cases step with
  | field name => exact member?_id (Option.mem_toList.mp mem) own
  | filter condition =>
    rw [walk, expand_of_id own] at mem
    rw [List.mem_singleton.mp (List.mem_filter.mp mem).1]
    exact own
  | wildcard =>
    cases p with
    | root => cases own
    | collection cls => cases own
    | entity e =>
      obtain ⟨entry, -, rfl⟩ := List.mem_map.mp mem
      exact own
    | value i path v =>
      obtain ⟨axis, -, found⟩ := List.mem_filterMap.mp mem
      exact member?_id found own

theorem walk_before (p : Place) (step : Step) : (step.walk snapshot p).Pairwise Before := by
  cases own : p.id? with
  | some id => exact pairwise_of_id (walk_id snapshot own step)
  | none =>
    cases step with
    | field name =>
      rw [walk]
      cases p.member? name with
      | none => exact .nil
      | some q => exact List.pairwise_singleton _ _
    | filter condition => exact (expand_before snapshot p).sublist List.filter_sublist
    | wildcard =>
      cases p with
      | root => exact expand_before snapshot .root
      | collection cls => exact expand_before snapshot (.collection cls)
      | entity => cases own
      | value => cases own

/-- What keeps to an entity, and gives places in order, keeps places in order. -/
theorem flatMap_before {f : Place → List Place} (keeps : ∀ p id, p.id? = some id → ∀ q ∈ f p, q.id? = some id)
    (each : ∀ p, (f p).Pairwise Before) {places : List Place} (ordered : places.Pairwise Before) :
    (places.flatMap f).Pairwise Before := by
  rw [List.pairwise_flatMap]
  refine ⟨fun p _ => each p, ordered.imp ?_⟩
  rintro p q ⟨i, j, first, second, le⟩ x memx y memy
  exact ⟨i, j, keeps p i first x memx, keeps q j second y memy, le⟩

theorem walkAll_before (steps : List Step) {places : List Place} (ordered : places.Pairwise Before) :
    (walkAll snapshot places steps).Pairwise Before := by
  induction steps generalizing places with
  | nil => exact ordered
  | cons step rest ih =>
    refine ih (flatMap_before (fun p id own => walk_id snapshot own step) (fun p => walk_before snapshot p step) ?_)
    exact ordered

end Step

/-- The matches of a query are in the order of their entities. -/
theorem Query.evaluate_ordered (q : Query) (snapshot : Entities) :
    (q.evaluate snapshot).Pairwise fun a b => a.entity ≤ b.entity := by
  have reached := Step.walkAll_before snapshot q.steps (List.pairwise_singleton Before .root)
  have expanded : ((Step.walkAll snapshot [.root] q.steps).flatMap (Place.expand snapshot)).Pairwise Before := by
    refine Step.flatMap_before ?_ (expand_before snapshot) reached
    intro p id own q mem
    rw [expand_of_id own, List.mem_singleton] at mem
    rw [mem]
    exact own
  have entity {p : Place} {m : Match} (found : p.match? = some m) : p.id? = some m.entity := by
    cases p <;> cases found <;> rfl
  refine List.pairwise_filterMap.mpr (expanded.imp ?_)
  rintro p q ⟨i, j, first, second, le⟩ a here b there
  cases first.symm.trans (entity here)
  cases second.symm.trans (entity there)
  exact le

end DemoTape
