/-
# A condition tests what its path projects

A condition follows its path by itself, inside of a filter, while a query follows the same path by steps. Both bind the
same value of each entity (`Place.bound?`), so a query with the condition at its end has the matches, of those that it
has without, whose entities are matched by the path as well and bind a value there that stands in the relation to the
literal (`evaluate_filter`).
-/
import DemoTape.Proofs.Query.Locality
import Mathlib.Data.List.Nodup

namespace DemoTape
set_option autoImplicit false

/-- A value stands in a relation to a literal if they have an order and it is admitted; truth values are tested for
equality only. -/
theorem Comparison.holds_iff (comparison : Comparison) (v literal : Value) :
    comparison.holds v literal = true ↔ ∃ order, v.compare literal = some order ∧ comparison.admits order = true ∧
      (v.kind = .boolean → comparison.isEquality = true) := by
  rw [holds, Bool.and_eq_true, Option.any_eq_true, Bool.or_eq_true, decide_eq_true_eq, ← Decidable.imp_iff_not_or]
  constructor
  · rintro ⟨equality, order, compared, admitted⟩
    exact ⟨order, compared, admitted, equality⟩
  · rintro ⟨order, compared, admitted, equality⟩
    exact ⟨equality, order, compared, admitted⟩

/-! ## Paths -/

namespace Place

/-- The value that a path of names leads to. -/
def bound? (path : List String) (place : Place) : Option Value :=
  match place.follow? path with
  | some (.value _ _ v) => some v
  | _ => none

theorem meets_eq (condition : Condition) (place : Place) :
    place.meets condition = (place.bound? condition.path).any (condition.comparison.holds · condition.literal) := by
  unfold meets bound?
  split <;> simp_all

/-- A path goes on from a value under the names that it has come by. -/
theorem follow?_value {names : List String} {id : EntityId} {path : String} {v : Value} {q : Place}
    (reached : (Place.value id path v).follow? names = some q) :
    ∃ w, q = .value id (".".intercalate (path :: names)) w := by
  induction names generalizing path v with
  | nil => exact ⟨v, (Option.some.inj reached).symm⟩
  | cons name rest ih =>
    obtain ⟨next, found, reached⟩ := Option.bind_eq_some_iff.mp reached
    cases v with
    | vector v =>
      obtain ⟨x, -, rfl⟩ := Option.map_eq_some_iff.mp found
      exact ih reached
    | integer | float | text | boolean => cases found

/-- A path from an entity leads to a value under the names of the path. -/
theorem follow?_entity (e : Entity) (name : String) (rest : List String) :
    (Place.entity e).follow? (name :: rest) =
      ((Place.entity e).bound? (name :: rest)).map (.value e.id (".".intercalate (name :: rest))) := by
  unfold bound?
  cases reached : (Place.entity e).follow? (name :: rest) with
  | none => rfl
  | some q =>
    obtain ⟨next, found, more⟩ := Option.bind_eq_some_iff.mp reached
    obtain ⟨v, -, rfl⟩ := Option.map_eq_some_iff.mp found
    obtain ⟨w, rfl⟩ := follow?_value more
    rfl

/-- There is nothing to expand in places that are of entities. -/
theorem flatMap_expand_self {snapshot : Entities} {places : List Place} (own : ∀ p ∈ places, p.id?.isSome) :
    places.flatMap (expand snapshot) = places := by
  have each : places.flatMap (expand snapshot) = places.flatMap fun p => [p] := by
    refine List.flatMap_congr fun p mem => ?_
    obtain ⟨id, here⟩ := Option.isSome_iff_exists.mp (own p mem)
    exact expand_of_id here snapshot
  rw [each, List.flatMap_singleton']

end Place

/-! ## Steps to entities -/

namespace Step
variable (snapshot : Entities)

/-- The steps to all entities, or to those of a class, and of these to those that meet some conditions. -/
def toEntities (start : Option String) (conditions : List Condition) : List Step :=
  start.toList.map .field ++ .wildcard :: conditions.map .filter

theorem walkAll_filters (conditions : List Condition) (entities : List Entity) :
    walkAll snapshot (entities.map .entity) (conditions.map .filter) =
      (entities.filter fun e => conditions.all (Place.entity e).meets).map .entity := by
  induction conditions generalizing entities with
  | nil => simp [walkAll]
  | cons condition rest ih =>
    have one : (entities.map Place.entity).flatMap (walk snapshot · (.filter condition)) =
        (entities.filter fun e => (Place.entity e).meets condition).map .entity := by
      induction entities with
      | nil => rfl
      | cons e others ih =>
        rw [List.map_cons, List.flatMap_cons, ih, List.filter_cons, walk, Place.expand_of_id rfl]
        split <;> simp_all
    rw [List.map_cons, walkAll_cons, one, ih, List.filter_filter]
    simp [Bool.and_comm]

/-- Such steps lead to some entities of the snapshot, in their order. -/
theorem exists_walkAll_toEntities (start : Option String) (conditions : List Condition) :
    ∃ keep : Entity → Bool, walkAll snapshot [.root] (toEntities start conditions) =
      (snapshot.all.filter keep).map .entity := by
  obtain ⟨cls, reached⟩ : ∃ cls, walkAll snapshot [.root] (toEntities start conditions) =
      walkAll snapshot (Place.ofClass snapshot cls) (conditions.map .filter) := by
    cases start with
    | none =>
      refine ⟨none, ?_⟩
      rw [toEntities, Option.toList_none, List.map_nil, List.nil_append, walkAll_cons, List.flatMap_singleton]
      rfl
    | some name =>
      refine ⟨if name = Place.allEntities then none else some name, ?_⟩
      rw [toEntities, Option.toList_some, List.map_singleton, List.singleton_append, walkAll_cons,
        List.flatMap_singleton, walkAll_cons]
      exact congrArg (walkAll snapshot · _) (List.flatMap_singleton _ _)
  rw [reached, Place.ofClass, walkAll_filters, List.filter_filter]
  exact ⟨_, rfl⟩

theorem walkAll_fields (names : List String) (places : List Place) :
    walkAll snapshot places (names.map .field) = places.filterMap (Place.follow? names) := by
  induction names generalizing places with
  | nil => exact List.filterMap_some.symm
  | cons name rest ih =>
    have one : places.flatMap (walk snapshot · (.field name)) = places.filterMap (Place.member? name) :=
      (List.filterMap_eq_flatMap_toList _ _).symm
    rw [List.map_cons, walkAll_cons, one, ih, List.filterMap_filterMap]
    rfl

end Step

/-! ## Queries -/

namespace Query
variable {snapshot : Entities} {steps more : List Step} {entities : List Entity}

/-- Places of entities are expanded to themselves. -/
theorem evaluate_of_id (places : List Place) (own : ∀ p ∈ places, p.id?.isSome)
    (reached : Step.walkAll snapshot [.root] steps = places) :
    (Query.mk steps).evaluate snapshot = places.filterMap Place.match? := by
  rw [evaluate, reached, Place.flatMap_expand_self own]

theorem evaluate_expanded
    (reached : (Step.walkAll snapshot [.root] steps).flatMap (Place.expand snapshot) = entities.map .entity) :
    (Query.mk steps).evaluate snapshot = entities.map fun e => ⟨e.id, e.properties⟩ := by
  rw [evaluate, reached, List.filterMap_map]
  exact congrFun (List.filterMap_eq_map (f := fun e : Entity => Match.mk e.id e.properties)) entities

theorem evaluate_entities (reached : Step.walkAll snapshot [.root] steps = entities.map .entity) :
    (Query.mk steps).evaluate snapshot = entities.map fun e => ⟨e.id, e.properties⟩ := by
  refine evaluate_expanded ?_
  rw [reached, Place.flatMap_expand_self fun p mem => ?_]
  obtain ⟨e, -, rfl⟩ := List.mem_map.mp mem
  rfl

/-- A path behind steps to entities binds one value of each at most. -/
theorem evaluate_path (reached : Step.walkAll snapshot [.root] steps = entities.map .entity) (name : String)
    (rest : List String) :
    (Query.mk (steps ++ (name :: rest).map .field)).evaluate snapshot = entities.filterMap fun e =>
      ((Place.entity e).bound? (name :: rest)).map fun v =>
        ⟨e.id, .singleton (".".intercalate (name :: rest)) v⟩ := by
  have followed : Step.walkAll snapshot [.root] (steps ++ (name :: rest).map .field) =
      entities.filterMap fun e =>
        ((Place.entity e).bound? (name :: rest)).map (.value e.id (".".intercalate (name :: rest))) := by
    rw [Step.walkAll_append, reached, Step.walkAll_fields, List.filterMap_map]
    exact congrArg (List.filterMap · entities) (funext fun e => Place.follow?_entity e name rest)
  rw [evaluate_of_id _ (fun p mem => ?_) followed, List.filterMap_filterMap]
  · refine congrArg (List.filterMap · entities) (funext fun e => ?_)
    cases (Place.entity e).bound? (name :: rest) <;> rfl
  · obtain ⟨e, -, found⟩ := List.mem_filterMap.mp mem
    obtain ⟨v, -, rfl⟩ := Option.map_eq_some_iff.mp found
    rfl

/-- A condition behind steps to entities keeps those whose value, if its path binds one, is in relation to the
literal. -/
theorem evaluate_condition (reached : Step.walkAll snapshot [.root] steps = entities.map .entity)
    (condition : Condition) :
    (Query.mk (steps ++ [.filter condition])).evaluate snapshot =
      (entities.filter fun e => ((Place.entity e).bound? condition.path).any
        (condition.comparison.holds · condition.literal)).map fun e => ⟨e.id, e.properties⟩ := by
  refine evaluate_entities ?_
  rw [Step.walkAll_append, reached]
  have filtered := Step.walkAll_filters snapshot [condition] entities
  simp only [List.all_cons, List.all_nil, Bool.and_true, Place.meets_eq] at filtered
  exact filtered

/-- What a path binds of an entity is found again by the id of the entity. -/
theorem any_bound {e : Entity} (member : e ∈ entities) (apart : (entities.map Entity.id).Nodup)
    (bound? : Entity → Option Value) (key : String) (good : Value → Bool) :
    ((entities.filterMap fun f => (bound? f).map fun v => Match.mk f.id (.singleton key v)).any
      fun m => m.entity = e.id && (m.values.find? key).any good) = (bound? e).any good := by
  have there (v : Value) : (SortedMap.singleton key v).find? key = some v :=
    if_pos Std.ReflCmp.compare_self
  rw [Bool.eq_iff_iff, List.any_eq_true, Option.any_eq_true]
  constructor
  · rintro ⟨m, found, holds⟩
    obtain ⟨other, mem, from_other⟩ := List.mem_filterMap.mp found
    obtain ⟨v, bound, rfl⟩ := Option.map_eq_some_iff.mp from_other
    simp only [there, Option.any_some, Bool.and_eq_true, decide_eq_true_eq] at holds
    obtain rfl := List.inj_on_of_nodup_map apart mem member holds.1
    exact ⟨v, bound, holds.2⟩
  · rintro ⟨v, bound, holds⟩
    refine ⟨⟨e.id, .singleton key v⟩, List.mem_filterMap.mpr ⟨e, member, by rw [bound]; rfl⟩, ?_⟩
    simp [there, holds]

/-- **A condition keeps what its path projects.** Of the matches that the steps to entities have, those are left whose
entities have a match of the path as well, with a value under it that stands in the relation to the literal. There is
one match of the path for each entity at most, in the order of the entities, and it binds nothing else. -/
theorem evaluate_filter (start : Option String) (conditions : List Condition) (name : String) (rest : List String)
    (comparison : Comparison) (literal : Value) (snapshot : Entities) :
    let steps := Step.toEntities start conditions
    let path := name :: rest
    let key := ".".intercalate path
    let projected := (Query.mk (steps ++ path.map .field)).evaluate snapshot
    (Query.mk (steps ++ [.filter ⟨path, comparison, literal⟩])).evaluate snapshot =
      ((Query.mk steps).evaluate snapshot).filter (fun m =>
        projected.any fun n => n.entity = m.entity && (n.values.find? key).any (comparison.holds · literal)) ∧
    projected.Pairwise (fun a b => a.entity < b.entity) ∧
    (∀ n ∈ projected, ∃ v, n.values = .singleton key v) ∧
    ∀ v, comparison.holds v literal = true ↔ ∃ order, v.compare literal = some order ∧ comparison.admits order = true ∧
      (v.kind = .boolean → comparison.isEquality = true) := by
  intro steps path key projected
  obtain ⟨keep, reached⟩ := Step.exists_walkAll_toEntities snapshot start conditions
  have ordered : (snapshot.all.filter keep).Pairwise fun a b => a.id < b.id := snapshot.all_ascending.filter keep
  have apart : ((snapshot.all.filter keep).map Entity.id).Nodup :=
    List.pairwise_map.mpr (ordered.imp UInt32.ne_of_lt)
  have bound : projected = _ := evaluate_path reached name rest
  refine ⟨?_, ?_, ?_, ?_⟩
  · rw [evaluate_condition reached, evaluate_entities reached, bound, List.filter_map]
    refine congrArg (List.map _) (List.filter_congr fun e member => ?_)
    exact (any_bound member apart (fun e => (Place.entity e).bound? path) key _).symm
  · rw [bound]
    refine List.pairwise_filterMap.mpr (ordered.imp ?_)
    intro a b less m here n there
    obtain ⟨v, -, rfl⟩ := Option.map_eq_some_iff.mp here
    obtain ⟨w, -, rfl⟩ := Option.map_eq_some_iff.mp there
    exact less
  · intro n member
    rw [bound] at member
    obtain ⟨e, -, found⟩ := List.mem_filterMap.mp member
    obtain ⟨v, -, rfl⟩ := Option.map_eq_some_iff.mp found
    exact ⟨v, rfl⟩
  · exact fun v => comparison.holds_iff v literal

/-- An entity with a property that hides its id, and one without properties. -/
def hidden : Entities := .ofList [⟨1, "tree", .singleton "id" (.integer 9)⟩, ⟨7, "tree", ∅⟩]

example :
    (Query.mk (Step.toEntities (some "tree") [] ++ [.field "id"])).evaluate hidden =
        [⟨1, .singleton "id" (.integer 9)⟩, ⟨7, .singleton "id" (.integer 7)⟩] ∧
      (Query.mk (Step.toEntities (some "tree") [] ++ [.filter ⟨["id"], .atLeast, .integer 8⟩])).evaluate hidden =
        [⟨1, .singleton "id" (.integer 9)⟩] := by decide +kernel

end Query
end DemoTape
