/-
# Queries that say the same

What a walk finds depends on the places that some steps lead to, not on the steps (`evaluate_congr`), so a query may be
rewritten at its front by steps that lead to the same places. All of the laws come from how a condition is taken: it
expands the places before it chooses among them (`walkAll_filter`), and to expand again does nothing
(`Place.flatMap_expand_self`). So a wildcard in front of a condition can be left out where there is something to expand,
two conditions can change places, and one that is repeated counts once. Where there is nothing to expand any more
(`Step.opens`), a condition only leaves places out, and then no step behind it finds more than it found before
(`walkAll_sublist`).
-/
import DemoTape.Proofs.Query.Projection
import Mathlib.Data.List.Flatten

namespace DemoTape
set_option autoImplicit false

/-! ## Expanding -/

namespace Place
variable {snapshot : Entities}

/-- What a place is expanded to is of an entity. -/
theorem isSome_of_mem_expand {p q : Place} (mem : q ∈ p.expand snapshot) : q.id?.isSome := by
  cases own : p.id? with
  | none =>
    obtain ⟨id, e, -, rfl⟩ := mem_expand own mem
    rfl
  | some id =>
    rw [expand_of_id own, List.mem_singleton] at mem
    rw [mem, own]
    rfl

theorem isSome_of_mem_expanded {places : List Place} :
    ∀ p ∈ places.flatMap (expand snapshot), p.id?.isSome := by
  intro p mem
  obtain ⟨q, -, mem⟩ := List.mem_flatMap.mp mem
  exact isSome_of_mem_expand mem

/-- The root and the collections have as elements what they are expanded to. -/
theorem elements_of_no_id {p : Place} (none_own : p.id? = none) : p.elements snapshot = p.expand snapshot := by
  cases p with
  | root => rfl
  | collection cls => rfl
  | entity e => cases none_own
  | value id path v => cases none_own

end Place

/-! ## Steps -/

namespace Step

/-- Whether a step expands the root and the collections and so leads to entities, or on from them. -/
def opens : Step → Bool
  | .field _ => false
  | .wildcard => true
  | .filter _ => true

variable (snapshot : Entities)

/-- A condition chooses among what the places are expanded to. -/
theorem walkAll_filter (places : List Place) (condition : Condition) :
    walkAll snapshot places [.filter condition] =
      (places.flatMap (Place.expand snapshot)).filter (·.meets condition) :=
  List.filter_flatMap.symm

/-- What a condition has chosen is not expanded by the next one. -/
theorem walkAll_filter_filter (places : List Place) (first second : Condition) :
    walkAll snapshot places [.filter first, .filter second] =
      (places.flatMap (Place.expand snapshot)).filter fun p => p.meets second && p.meets first := by
  have chosen : ∀ p ∈ walkAll snapshot places [.filter first], p.id?.isSome := by
    intro p mem
    rw [walkAll_filter] at mem
    exact Place.isSome_of_mem_expanded p (List.mem_filter.mp mem).1
  calc walkAll snapshot places [.filter first, .filter second]
      = walkAll snapshot (walkAll snapshot places [.filter first]) [.filter second] := rfl
    _ = (walkAll snapshot places [.filter first]).filter (·.meets second) := by
        rw [walkAll_filter _ (walkAll _ _ _), Place.flatMap_expand_self chosen]
    _ = _ := by rw [walkAll_filter, List.filter_filter]

/-- From places that are of entities, steps lead to such places. -/
theorem isSome_of_mem_walkAll {places : List Place} (own : ∀ p ∈ places, p.id?.isSome) (steps : List Step) :
    ∀ q ∈ walkAll snapshot places steps, q.id?.isSome := by
  induction steps generalizing places with
  | nil => exact own
  | cons step rest ih =>
    refine ih fun q mem => ?_
    obtain ⟨p, there, mem⟩ := List.mem_flatMap.mp mem
    obtain ⟨id, here⟩ := Option.isSome_iff_exists.mp (own p there)
    rw [walk_id snapshot here step q mem]
    rfl

theorem isSome_of_mem_walk {step : Step} (opens : step.opens) {p q : Place} (mem : q ∈ step.walk snapshot p) :
    q.id?.isSome := by
  cases step with
  | field name => cases opens
  | filter condition => exact Place.isSome_of_mem_expand (List.mem_filter.mp mem).1
  | wildcard =>
    cases own : p.id? with
    | none =>
      rw [walk, Place.elements_of_no_id own] at mem
      exact Place.isSome_of_mem_expand mem
    | some id =>
      rw [walk_id snapshot own .wildcard q mem]
      rfl

/-- Behind a wildcard or a condition all places are of entities, whatever other steps there are. -/
theorem isSome_of_opens {steps : List Step} (opens : steps.any Step.opens) (places : List Place) :
    ∀ q ∈ walkAll snapshot places steps, q.id?.isSome := by
  induction steps generalizing places with
  | nil => cases opens
  | cons step rest ih =>
    rw [List.any_cons, Bool.or_eq_true] at opens
    rcases opens with here | further
    · refine isSome_of_mem_walkAll snapshot (fun q mem => ?_) rest
      obtain ⟨p, -, mem⟩ := List.mem_flatMap.mp mem
      exact isSome_of_mem_walk snapshot here mem
    · exact ih further _

/-- Steps from fewer places lead to fewer places. -/
theorem walkAll_sublist {places others : List Place} (fewer : places.Sublist others) (steps : List Step) :
    (walkAll snapshot places steps).Sublist (walkAll snapshot others steps) := by
  induction steps generalizing places others with
  | nil => exact fewer
  | cons step rest ih => exact ih (fewer.flatMap _)

/-- A wildcard expands the root and the collections, and what it leads to is not expanded further. -/
theorem flatMap_expand_wildcard {p : Place} (none_own : p.id? = none) :
    (walkAll snapshot [p] [.wildcard]).flatMap (Place.expand snapshot) = [p].flatMap (Place.expand snapshot) := by
  have reached : walkAll snapshot [p] [.wildcard] = [p].flatMap (Place.expand snapshot) := by
    rw [walkAll_cons, List.flatMap_singleton, List.flatMap_singleton, walk, Place.elements_of_no_id none_own]
    rfl
  rw [reached, Place.flatMap_expand_self Place.isSome_of_mem_expanded]

/-- A path of one name at most leads to the root or to a collection. -/
theorem exists_walkAll_start (start : Option String) :
    ∃ p, walkAll snapshot [.root] (start.toList.map .field) = [p] ∧ p.id? = none := by
  cases start with
  | none => exact ⟨.root, rfl, rfl⟩
  | some name => exact ⟨.collection (if name = Place.allEntities then none else some name), rfl, rfl⟩

end Step

/-! ## Queries -/

namespace Query
variable (snapshot : Entities)

/-- Only the places count that the steps at the front lead to. -/
theorem evaluate_congr {first second : List Step}
    (same : Step.walkAll snapshot [.root] first = Step.walkAll snapshot [.root] second) (rest : List Step) :
    (Query.mk (first ++ rest)).evaluate snapshot = (Query.mk (second ++ rest)).evaluate snapshot := by
  simp only [evaluate, Step.walkAll_append, same]

/-- Fewer places at the front lead to fewer matches. -/
theorem evaluate_sublist {first second : List Step}
    (fewer : (Step.walkAll snapshot [.root] first).Sublist (Step.walkAll snapshot [.root] second)) (rest : List Step) :
    ((Query.mk (first ++ rest)).evaluate snapshot).Sublist ((Query.mk (second ++ rest)).evaluate snapshot) := by
  simp only [evaluate, Step.walkAll_append]
  exact ((Step.walkAll_sublist snapshot fewer rest).flatMap _).filterMap _

theorem evaluate_wildcard : (Query.mk [.wildcard]).evaluate snapshot =
    snapshot.entries.map fun entry => ⟨entry.1, entry.2.properties⟩ := by
  have entities : Step.walkAll snapshot [.root] [.wildcard] = snapshot.all.map .entity := by
    rw [Step.walkAll_cons, List.flatMap_singleton]
    simp [Step.walkAll, Step.walk, Place.elements, Place.expand, Place.ofClass]
  exact (evaluate_entities entities).trans (snapshot.map_all fun id e => Match.mk id e.properties)

/-- **Queries that say the same.** From the root and from a collection, a condition can do without a wildcard in front
of it, and so can the end of the query; the elements of the root are those of the collection of all entities, and
without a step all entities are matched, in their order and with all their properties. Wherever they stand, two
conditions in a row can change places, and one that is repeated counts once. Behind a wildcard or a condition, a
further condition only takes matches away. -/
theorem evaluate_rewritten :
    (∀ (start : Option String) (condition : Condition) (rest : List Step),
      (Query.mk (start.toList.map .field ++ [.filter condition] ++ rest)).evaluate snapshot =
        (Query.mk (start.toList.map .field ++ [.wildcard, .filter condition] ++ rest)).evaluate snapshot) ∧
    (∀ start : Option String, (Query.mk (start.toList.map .field)).evaluate snapshot =
      (Query.mk (start.toList.map .field ++ [.wildcard])).evaluate snapshot) ∧
    (∀ rest : List Step, (Query.mk ([.wildcard] ++ rest)).evaluate snapshot =
      (Query.mk ([.field "entities", .wildcard] ++ rest)).evaluate snapshot) ∧
    (snapshot.entries.Pairwise (fun a b => a.1 < b.1) ∧
      (Query.mk []).evaluate snapshot = snapshot.entries.map fun entry => ⟨entry.1, entry.2.properties⟩) ∧
    ∀ (before rest : List Step) (p q : Condition),
      (Query.mk (before ++ [.filter p, .filter q] ++ rest)).evaluate snapshot =
        (Query.mk (before ++ [.filter q, .filter p] ++ rest)).evaluate snapshot ∧
      (Query.mk (before ++ [.filter p, .filter p] ++ rest)).evaluate snapshot =
        (Query.mk (before ++ [.filter p] ++ rest)).evaluate snapshot ∧
      (before.any Step.opens →
        ((Query.mk (before ++ [.filter p] ++ rest)).evaluate snapshot).Sublist
          ((Query.mk (before ++ rest)).evaluate snapshot)) := by
  have ended (start : Option String) : (Query.mk (start.toList.map .field)).evaluate snapshot =
      (Query.mk (start.toList.map .field ++ [.wildcard])).evaluate snapshot := by
    obtain ⟨p, reached, none_own⟩ := Step.exists_walkAll_start snapshot start
    simp only [evaluate, Step.walkAll_append, reached, Step.flatMap_expand_wildcard snapshot none_own]
  refine ⟨?_, ended, ?_, ⟨?_, ?_⟩, ?_⟩
  · intro start condition rest
    obtain ⟨p, reached, none_own⟩ := Step.exists_walkAll_start snapshot start
    refine evaluate_congr snapshot ?_ rest
    have split : [Step.wildcard, .filter condition] = [.wildcard] ++ [.filter condition] := rfl
    rw [split, Step.walkAll_append, Step.walkAll_append, reached, Step.walkAll_append, Step.walkAll_filter,
      Step.walkAll_filter, Step.flatMap_expand_wildcard snapshot none_own]
  · intro rest
    exact evaluate_congr snapshot rfl rest
  · exact snapshot.ascending.imp compareOfLessAndEq_eq_lt.mp
  · exact (ended none).trans (evaluate_wildcard snapshot)
  · intro before rest p q
    refine ⟨evaluate_congr snapshot ?_ rest, evaluate_congr snapshot ?_ rest, fun opens => ?_⟩
    · simp only [Step.walkAll_append, Step.walkAll_filter_filter, Bool.and_comm]
    · simp only [Step.walkAll_append, Step.walkAll_filter_filter, Step.walkAll_filter, Bool.and_self]
    · refine evaluate_sublist snapshot ?_ rest
      have reached := Step.isSome_of_opens snapshot opens [.root]
      rw [Step.walkAll_append, Step.walkAll_filter, Place.flatMap_expand_self reached]
      exact List.filter_sublist

/-- Behind a wildcard a condition takes a match away, and behind a collection it is what leads to a match at all. -/
theorem evaluate_rewritten_hidden :
    let high : Condition := ⟨["id"], .atLeast, .integer 8⟩
    [Step.wildcard].any Step.opens ∧
    ((Query.mk ([.wildcard] ++ [.filter high] ++ [.field "id"])).evaluate hidden).Sublist
      ((Query.mk ([.wildcard] ++ [.field "id"])).evaluate hidden) ∧
    (Query.mk ([.field "tree"] ++ [.filter high] ++ [.field "id"])).evaluate hidden =
      [⟨1, .singleton "id" (.integer 9)⟩] ∧
    (Query.mk ([.field "tree"] ++ [.field "id"])).evaluate hidden = [] := by
  intro high
  obtain ⟨-, -, -, -, laws⟩ := evaluate_rewritten hidden
  obtain ⟨-, -, fewer⟩ := laws [.wildcard] [.field "id"] high high
  exact ⟨rfl, fewer rfl, by decide +kernel, by decide +kernel⟩

end Query
end DemoTape
