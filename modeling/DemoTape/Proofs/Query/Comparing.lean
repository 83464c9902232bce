/-
# The six comparisons of one path

Steps to entities with a condition behind them keep the entities whose value at the end of the path has an order to the
literal that the comparison admits (`evaluate_selected`). So it is the order of that one value that decides in which of
the six lists of matches an entity is, and what the lists have to do with each other is what the comparisons admit: two
that admit nothing in common have no entity in common (`separate_selected`), and one that admits what either of two
others admits has the matches of both, merged in the order of the entities (`merge_selected`).

Which values have an order says `Value.Comparable`, and the order is the same from both sides
(`Value.compare_reversed`). A truth value has an order to a truth value, but only equality is tested, so that the
other four comparisons keep nothing.
-/
import DemoTape.Proofs.Number.Mixed
import DemoTape.Proofs.Query.Layers
import DemoTape.Proofs.Query.Rewriting
import Mathlib.Data.List.Basic
import Mathlib.Data.Set.List

namespace DemoTape
set_option autoImplicit false

/-! ## Values with an order -/

theorem Binary.compare_reversed {f : FloatFormat} (x y : Binary f) :
    y.compare x = (x.compare y).map Ordering.swap := by
  unfold Binary.compare
  rw [Bool.or_comm]
  split
  · rfl
  · exact congrArg some Std.OrientedCmp.eq_swap

theorem Binary.isSome_compare {f : FloatFormat} (x y : Binary f) :
    (x.compare y).isSome ↔ x.isNaN = false ∧ y.isNaN = false := by
  unfold Binary.compare
  cases x.isNaN <;> cases y.isNaN <;> simp

namespace Value

def isNumber : Value → Bool
  | .integer _ => true
  | .float _ => true
  | _ => false

def isNaN : Value → Bool
  | .float x => x.isNaN
  | _ => false

/-- Whether two values are of one kind or both numbers, and neither a vector nor NaN. -/
def Comparable (a b : Value) : Prop :=
  (a.kind = b.kind ∨ a.isNumber ∧ b.isNumber) ∧ a.kind ≠ .vector ∧ a.isNaN = false ∧ b.isNaN = false

/-- Values of different kinds have the order of the floats that they are compared as. -/
theorem compare_eq_bind {a b : Value} (mixed : a.kind ≠ b.kind) :
    a.compare b = a.number?.bind fun x => b.number?.bind x.compare := by
  unfold compare
  split
  · exact absurd rfl mixed
  · exact absurd rfl mixed
  · exact absurd rfl mixed
  · rfl

/-- A number is compared as a float, which is NaN if the number is. -/
theorem number?_of_isNumber {a : Value} (number : a.isNumber) :
    ∃ x, a.number? = some x ∧ x.isNaN = a.isNaN ∧ a.kind ≠ .vector := by
  cases a with
  | integer i => exact ⟨_, rfl, Binary.isNaN_of_finite (Binary.isFinite_ofInt i), nofun⟩
  | float x => exact ⟨x, rfl, rfl, nofun⟩
  | text | boolean | vector => cases number

theorem number?_of_other {a : Value} (other : a.isNumber = false) : a.number? = none := by
  cases a with
  | integer | float => cases other
  | text | boolean | vector => rfl

/-- The order of two values is the same from both sides. -/
theorem compare_reversed (a b : Value) : b.compare a = (a.compare b).map Ordering.swap := by
  by_cases same : a.kind = b.kind
  · cases a with
    | integer i =>
      cases b <;> cases same
      exact congrArg some Std.OrientedCmp.eq_swap
    | float x =>
      cases b <;> cases same
      exact Binary.compare_reversed x _
    | text s =>
      cases b <;> cases same
      exact congrArg some Std.OrientedCmp.eq_swap
    | boolean c =>
      cases b <;> cases same
      exact congrArg some Std.OrientedCmp.eq_swap
    | vector v =>
      cases b <;> cases same
      rfl
  · rw [compare_eq_bind same, compare_eq_bind (Ne.symm same)]
    cases a.number? with
    | none => cases b.number? <;> rfl
    | some x =>
      cases b.number? with
      | none => rfl
      | some y => exact Binary.compare_reversed x y

theorem isSome_compare (a b : Value) : (a.compare b).isSome ↔ a.Comparable b := by
  by_cases same : a.kind = b.kind
  · cases a with
    | integer i =>
      cases b <;> cases same
      simp [compare, Comparable, kind, isNaN]
    | float x =>
      cases b <;> cases same
      rename_i y
      have both := Binary.isSome_compare x y
      simpa [compare, number?, Comparable, kind, isNaN] using both
    | text s =>
      cases b <;> cases same
      simp [compare, Comparable, kind, isNaN]
    | boolean c =>
      cases b <;> cases same
      simp [compare, Comparable, kind, isNaN]
    | vector v =>
      cases b <;> cases same
      simp [compare, number?, Comparable, kind]
  · rw [compare_eq_bind same]
    by_cases numbers : a.isNumber ∧ b.isNumber
    · obtain ⟨x, first, nanX, scalar⟩ := number?_of_isNumber numbers.1
      obtain ⟨y, second, nanY, -⟩ := number?_of_isNumber numbers.2
      rw [first, second, Option.bind_some, Option.bind_some, Binary.isSome_compare, nanX, nanY]
      exact ⟨fun real => ⟨.inr numbers, scalar, real⟩, fun comparable => comparable.2.2⟩
    · have none_found : (a.number?.bind fun x => b.number?.bind x.compare) = none := by
        cases first : a.isNumber with
        | false => rw [number?_of_other first, Option.bind_none]
        | true =>
          have second : b.isNumber = false := by simpa [first] using numbers
          rw [number?_of_other second]
          cases a.number? <;> rfl
      rw [none_found]
      refine iff_of_false (by simp) fun comparable => ?_
      exact comparable.1.elim same numbers

end Value

/-! ## Matches in order -/

section Merge
variable {α : Type} {le : α → α → Bool} {l r : List α}

/-- What comes before all of the other list comes first. -/
theorem merge_cons_left {a : α} (before : ∀ b ∈ r, le a b) : (a :: l).merge r le = a :: l.merge r le := by
  cases r with
  | nil => simp
  | cons b r =>
    have first : le a b := before b (List.mem_cons_self ..)
    simp [first]

theorem merge_cons_right {b : α} (behind : ∀ a ∈ l, le a b = false) : l.merge (b :: r) le = b :: l.merge r le := by
  cases l with
  | nil => simp
  | cons a l =>
    have second : le a b = false := behind a (List.mem_cons_self ..)
    simp [second]

/-- What is chosen from a list in two ways that exclude each other is merged to what is chosen in either way. -/
theorem merge_filter {p q : α → Bool} (ordered : l.Pairwise fun a b => le a b = true ∧ le b a = false)
    (apart : ∀ a ∈ l, p a → q a = false) : (l.filter p).merge (l.filter q) le = l.filter fun a => p a || q a := by
  induction l with
  | nil => simp
  | cons a rest ih =>
    obtain ⟨first, ordered⟩ := List.pairwise_cons.mp ordered
    obtain ⟨here, apart⟩ := List.forall_mem_cons.mp apart
    have further := ih ordered apart
    cases left : p a with
    | true =>
      have right : q a = false := here left
      simp only [List.filter_cons, left, right, Bool.true_or, if_true, Bool.false_eq_true, if_false]
      rw [merge_cons_left fun b mem => (first b (List.mem_filter.mp mem).1).1, further]
    | false =>
      cases right : q a with
      | true =>
        simp only [List.filter_cons, left, right, Bool.or_true, if_true, Bool.false_eq_true, if_false]
        rw [merge_cons_right fun b mem => (first b (List.mem_filter.mp mem).1).2, further]
      | false =>
        simp only [List.filter_cons, left, right, Bool.or_self, Bool.false_eq_true, if_false]
        exact further

end Merge

namespace Match

/-- An entity with all its properties. -/
def ofEntity (e : Entity) : Match := ⟨e.id, e.properties⟩

/-- Two lists of matches in the order of their entities as one. -/
def merge (left right : List Match) : List Match := left.merge right fun m n => m.entity ≤ n.entity

/-- Whether no entity is matched in both lists. -/
def Separate (left right : List Match) : Prop := (left.map entity).Disjoint (right.map entity)

end Match

/-! ## Orders that are admitted -/

/-- Whether an order to this literal is enough for the comparison; truth values are tested for equality only. -/
def Comparison.accepts (comparison : Comparison) (literal : Value) (order : Ordering) : Bool :=
  (literal.kind ≠ .boolean || comparison.isEquality) && comparison.admits order

namespace Comparison
variable {literal : Value}

/-- A value that has an order to a literal is a truth value exactly if the literal is. -/
theorem boolean_iff {v : Value} (comparable : v.Comparable literal) : v.kind = .boolean ↔ literal.kind = .boolean := by
  rcases comparable.1 with same | ⟨left, right⟩
  · rw [same]
  · cases v <;> cases left <;> cases literal <;> cases right <;> exact iff_of_false nofun nofun

theorem comparable_of_boolean {v : Value} (truth : literal.kind = .boolean) :
    v.Comparable literal ↔ v.kind = .boolean := by
  constructor
  · intro comparable
    exact (boolean_iff comparable).mpr truth
  · intro same
    cases v <;> cases same
    cases literal <;> cases truth
    exact ⟨.inl rfl, nofun, rfl, rfl⟩

theorem holds_eq (comparison : Comparison) (v literal : Value) :
    comparison.holds v literal = (v.compare literal).any (comparison.accepts literal) := by
  unfold holds
  cases compared : v.compare literal with
  | none => simp
  | some order =>
    have comparable : v.Comparable literal := (Value.isSome_compare v literal).mp (by rw [compared]; rfl)
    simp [accepts, boolean_iff comparable]

theorem accepts_of_other (other : literal.kind ≠ .boolean) (comparison : Comparison) (order : Ordering) :
    comparison.accepts literal order = comparison.admits order := by
  simp [accepts, other]

theorem accepts_of_boolean (truth : literal.kind = .boolean) (comparison : Comparison) (order : Ordering) :
    comparison.accepts literal order = (comparison.isEquality && comparison.admits order) := by
  simp [accepts, truth]

end Comparison

/-! ## Entities by the order of a value -/

namespace Query
variable {snapshot : Entities} {entities : List Entity} {order : Entity → Option Ordering}
  {good other : Ordering → Bool}

/-- The matches of the entities that have an order which is good. -/
def selected (entities : List Entity) (order : Entity → Option Ordering) (good : Ordering → Bool) : List Match :=
  (entities.filter fun e => (order e).any good).map .ofEntity

/-- Entities of a snapshot are told apart by their ids. -/
theorem entity_of_id (known : ∀ e ∈ entities, snapshot.find? e.id = some e) {a b : Entity}
    (here : a ∈ entities) (there : b ∈ entities) (ids : a.id = b.id) : a = b := by
  have found := known a here
  rw [ids, known b there] at found
  exact (Option.some.inj found).symm

theorem mem_selected (known : ∀ e ∈ entities, snapshot.find? e.id = some e) {e : Entity} (mem : e ∈ entities) :
    .ofEntity e ∈ selected entities order good ↔ (order e).any good := by
  simp only [selected, List.mem_map, List.mem_filter]
  constructor
  · rintro ⟨found, ⟨there, kept⟩, same⟩
    rwa [← entity_of_id known there mem (congrArg Match.entity same)]
  · intro kept
    exact ⟨e, ⟨mem, kept⟩, rfl⟩

/-- Orders that exclude each other have no entity in common. -/
theorem separate_selected (known : ∀ e ∈ entities, snapshot.find? e.id = some e)
    (excludes : ∀ o, good o → other o = false) :
    Match.Separate (selected entities order good) (selected entities order other) := by
  intro id left right
  simp only [selected, List.map_map, List.mem_map, List.mem_filter] at left right
  obtain ⟨a, ⟨memA, goodA⟩, rfl⟩ := left
  obtain ⟨b, ⟨memB, otherB⟩, ids⟩ := right
  rw [entity_of_id known memB memA ids] at otherB
  obtain ⟨o, found, isGood⟩ := (Option.any_eq_true ..).mp goodA
  rw [found, Option.any_some, excludes o isGood] at otherB
  cases otherB

theorem merge_selected (ordered : entities.Pairwise fun a b => a.id < b.id)
    (excludes : ∀ o, good o → other o = false) :
    Match.merge (selected entities order good) (selected entities order other) =
      selected entities order fun o => good o || other o := by
  have apart : ∀ e ∈ entities, (order e).any good → (order e).any other = false := by
    intro e _ isGood
    cases found : order e with
    | none => rfl
    | some o =>
      rw [found, Option.any_some] at isGood
      exact excludes o isGood
  have strict : entities.Pairwise fun a b => decide (a.id ≤ b.id) = true ∧ decide (b.id ≤ a.id) = false := by
    refine ordered.imp fun {a b} less => ⟨decide_eq_true (UInt32.le_of_lt less), decide_eq_false ?_⟩
    exact UInt32.not_le.mpr less
  have merged := merge_filter strict apart
  unfold Match.merge selected
  rw [← List.map_merge (r := fun a b => decide (a.id ≤ b.id)) (fun _ _ _ _ => rfl), merged]
  refine congrArg (List.map Match.ofEntity) (List.filter_congr fun e _ => ?_)
  cases order e <;> rfl

/-- What either of two orders is good for, if these exclude each other. -/
theorem selected_either (ordered : entities.Pairwise fun a b => a.id < b.id) {either : Ordering → Bool}
    (covers : ∀ o, either o = (good o || other o)) (excludes : ∀ o, good o → other o = false) :
    selected entities order either = Match.merge (selected entities order good) (selected entities order other) := by
  rw [merge_selected ordered excludes]
  exact congrArg (selected entities order) (funext covers)

theorem selected_none : selected entities order (fun _ => false) = [] := by
  simp [selected]

/-! ## Steps to entities -/

/-- The order of what the path binds of an entity to a literal. -/
def orderAt (path : List String) (literal : Value) (e : Entity) : Option Ordering :=
  ((Place.entity e).bound? path).bind (·.compare literal)

/-- There is no order if the path leads to nothing or to what has no order to the literal. -/
theorem orderAt_eq_none {path : List String} {literal : Value} {e : Entity} :
    orderAt path literal e = none ↔ ∀ v, (Place.entity e).bound? path = some v → ¬ v.Comparable literal := by
  rw [orderAt, Option.bind_eq_none_iff]
  refine forall₂_congr fun v _ => ?_
  rw [← Value.isSome_compare, Option.not_isSome_iff_eq_none]

theorem isSome_orderAt {path : List String} {literal : Value} {e : Entity} (truth : literal.kind = .boolean) :
    (orderAt path literal e).isSome ↔ ∃ v, (Place.entity e).bound? path = some v ∧ v.kind = .boolean := by
  rw [orderAt]
  cases (Place.entity e).bound? path with
  | none => simp
  | some v => simp [Value.isSome_compare, Comparison.comparable_of_boolean truth]

/-- Every order is either that of equals or not. -/
theorem equal_or_notEqual {found : Option Ordering} :
    found.any (fun o => Comparison.equal.isEquality && Comparison.equal.admits o) ∨
      found.any (fun o => Comparison.notEqual.isEquality && Comparison.notEqual.admits o) ↔ found.isSome := by
  cases found with
  | none => simp
  | some o => cases o <;> decide

/-- Every order is admitted by one of the comparisons. -/
theorem exists_admits_iff {found : Option Ordering} :
    (∀ comparison : Comparison, ¬ found.any comparison.admits) ↔ found = none := by
  constructor
  · intro never
    cases found with
    | none => rfl
    | some o =>
      cases o with
      | eq => exact absurd rfl (never .equal)
      | lt => exact absurd rfl (never .less)
      | gt => exact absurd rfl (never .greater)
  · rintro rfl comparison
    exact nofun

variable {steps : List Step}

/-- A condition behind steps to entities selects by the order of what its path binds. -/
theorem evaluate_selected
    (reached : (Step.walkAll snapshot [.root] steps).flatMap (Place.expand snapshot) = entities.map .entity)
    (path : List String) (comparison : Comparison) (literal : Value) :
    (Query.mk (steps ++ [.filter ⟨path, comparison, literal⟩])).evaluate snapshot =
      selected entities (orderAt path literal) (comparison.accepts literal) := by
  have meets (e : Entity) : (Place.entity e).meets ⟨path, comparison, literal⟩ =
      (orderAt path literal e).any (comparison.accepts literal) := by
    rw [Place.meets_eq, orderAt]
    cases (Place.entity e).bound? path with
    | none => rfl
    | some v => exact comparison.holds_eq v literal
  refine evaluate_entities ?_
  rw [Step.walkAll_append, Step.walkAll_filter, reached, List.filter_map]
  exact congrArg (List.map _) (List.filter_congr fun e _ => meets e)

/-- Steps to entities lead to some entities of the snapshot, in their order. -/
theorem exists_entities (lead : (Layer.ofSteps steps).expanded = .entity)
    (snapshot : Entities) : ∃ entities : List Entity,
      (Step.walkAll snapshot [.root] steps).flatMap (Place.expand snapshot) = entities.map .entity ∧
      (∀ e ∈ entities, snapshot.find? e.id = some e) ∧ entities.Pairwise fun a b => a.id < b.id := by
  have standing := standing_expanded snapshot steps
  rw [lead] at standing
  have form : (Step.walkAll snapshot [.root] steps).flatMap (Place.expand snapshot) ∈
      Set.range (List.map Place.entity) := by
    rw [Set.range_list_map]
    intro p mem
    cases standing.stands p mem with
    | @entity e there => exact ⟨e, rfl⟩
  obtain ⟨entities, reached⟩ := form
  rw [← reached] at standing
  refine ⟨entities, reached.symm, ?_, ?_⟩
  · intro e mem
    cases standing.stands (.entity e) (List.mem_map_of_mem mem) with
    | entity there => exact there
  · have apart := List.pairwise_map.mp standing.apart
    have ordered := (Query.mk steps).evaluate_ordered snapshot
    rw [evaluate_expanded reached.symm] at ordered
    refine ((List.pairwise_map.mp ordered).and apart).imp fun {a b} both => ?_
    refine UInt32.lt_of_le_of_ne both.1 fun same => both.2 ?_
    exact Prod.ext (congrArg some same) rfl

/-- **The six comparisons are one family.** Behind steps to entities, with one path and one literal, each of them keeps
some of the entities. If the literal is no truth value, no entity is kept by two of equality, less and greater, the
other three keep what two of these keep, and all six leave an entity out exactly if its path leads to nothing or to what
has no order to the literal. If it is a truth value, only equality and its opposite keep anything, no entity is kept by
both, and one is kept by either exactly if its path leads to a truth value. The order of two values is the same from
both sides. -/
theorem evaluate_comparisons (lead : (Layer.ofSteps steps).expanded = .entity) (path : List String)
    (literal : Value) (snapshot : Entities) :
    let every := (Query.mk steps).evaluate snapshot
    let matched comparison := (Query.mk (steps ++ [.filter ⟨path, comparison, literal⟩])).evaluate snapshot
    (∀ comparison, (matched comparison).Sublist every) ∧
    (literal.kind ≠ .boolean →
      Match.Separate (matched .equal) (matched .less) ∧
      Match.Separate (matched .equal) (matched .greater) ∧
      Match.Separate (matched .less) (matched .greater) ∧
      matched .atMost = Match.merge (matched .less) (matched .equal) ∧
      matched .atLeast = Match.merge (matched .greater) (matched .equal) ∧
      matched .notEqual = Match.merge (matched .less) (matched .greater) ∧
      ∀ m ∈ every, ∃ e, snapshot.find? m.entity = some e ∧ m.values = e.properties ∧
        ((∀ comparison, m ∉ matched comparison) ↔
          ∀ v, (Place.entity e).bound? path = some v → ¬ v.Comparable literal)) ∧
    (literal.kind = .boolean →
      matched .less = [] ∧ matched .atMost = [] ∧ matched .greater = [] ∧ matched .atLeast = [] ∧
      Match.Separate (matched .equal) (matched .notEqual) ∧
      ∀ m ∈ every, ∃ e, snapshot.find? m.entity = some e ∧ m.values = e.properties ∧
        (m ∈ matched .equal ∨ m ∈ matched .notEqual ↔
          ∃ v, (Place.entity e).bound? path = some v ∧ v.kind = .boolean)) ∧
    ∀ a b : Value, b.compare a = (a.compare b).map Ordering.swap := by
  intro every matched
  obtain ⟨entities, reached, known, ordered⟩ := exists_entities lead snapshot
  have each (comparison : Comparison) : matched comparison = _ := evaluate_selected reached path comparison literal
  have all : every = entities.map .ofEntity := evaluate_expanded reached
  refine ⟨?_, ?_, ?_, Value.compare_reversed⟩
  · intro comparison
    rw [each, all]
    exact List.filter_sublist.map _
  · intro other
    have admitted (comparison : Comparison) : matched comparison =
        selected entities (orderAt path literal) comparison.admits := by
      rw [each]
      exact congrArg (selected entities _) (funext fun o => Comparison.accepts_of_other other comparison o)
    simp only [admitted]
    refine ⟨?_, ?_, ?_, ?_, ?_, ?_, ?_⟩
    · exact separate_selected known fun o => by cases o <;> decide
    · exact separate_selected known fun o => by cases o <;> decide
    · exact separate_selected known fun o => by cases o <;> decide
    · exact selected_either ordered (fun o => by cases o <;> rfl) fun o => by cases o <;> decide
    · exact selected_either ordered (fun o => by cases o <;> rfl) fun o => by cases o <;> decide
    · exact selected_either ordered (fun o => by cases o <;> rfl) fun o => by cases o <;> decide
    · intro m mem
      rw [all] at mem
      obtain ⟨e, there, rfl⟩ := List.mem_map.mp mem
      refine ⟨e, known e there, rfl, ?_⟩
      simp only [mem_selected known there]
      exact exists_admits_iff.trans orderAt_eq_none
  · intro truth
    have accepted (comparison : Comparison) : matched comparison =
        selected entities (orderAt path literal) fun o => comparison.isEquality && comparison.admits o := by
      rw [each]
      exact congrArg (selected entities _) (funext fun o => Comparison.accepts_of_boolean truth comparison o)
    simp only [accepted]
    refine ⟨selected_none, selected_none, selected_none, selected_none, ?_, ?_⟩
    · exact separate_selected known fun o => by cases o <;> decide
    · intro m mem
      rw [all] at mem
      obtain ⟨e, there, rfl⟩ := List.mem_map.mp mem
      refine ⟨e, known e there, rfl, ?_⟩
      rw [mem_selected known there, mem_selected known there]
      exact equal_or_notEqual.trans (isSome_orderAt truth)

/-- Trees with a mark of every kind or none, and a rock. -/
def marked : Entities := .ofList
  [⟨1, "tree", .singleton "mark" (.integer 3)⟩,
    ⟨2, "tree", .singleton "mark" (.float (.ofWord _ 0x4004000000000000))⟩,
    ⟨3, "tree", .singleton "mark" (.float (.quietNaN _ false 0))⟩,
    ⟨4, "tree", .singleton "mark" (.text "3")⟩, ⟨5, "tree", .singleton "mark" (.boolean true)⟩, ⟨6, "tree", ∅⟩,
    ⟨7, "tree", .singleton "mark" (.integer 9)⟩, ⟨8, "rock", .singleton "mark" (.integer 5)⟩]

/-- Unequal to a number are the trees whose marks are less or greater, not all whose marks are not equal to it. -/
theorem evaluate_comparisons_marked :
    let matched (literal : Value) (comparison : Comparison) :=
      (Query.mk ([.field "tree"] ++ [.filter ⟨["mark"], comparison, literal⟩])).evaluate marked
    (Layer.ofSteps [.field "tree"]).expanded = .entity ∧
    matched (.integer 3) .notEqual = Match.merge (matched (.integer 3) .less) (matched (.integer 3) .greater) ∧
    (matched (.integer 3) .equal).map Match.entity = [1] ∧
    (matched (.integer 3) .notEqual).map Match.entity = [2, 7] ∧
    Match.Separate (matched (.boolean false) .equal) (matched (.boolean false) .notEqual) ∧
    (matched (.boolean false) .notEqual).map Match.entity = [5] := by
  intro matched
  have lead : (Layer.ofSteps [.field "tree"]).expanded = .entity := rfl
  obtain ⟨-, numbers, -, -⟩ := evaluate_comparisons lead ["mark"] (.integer 3) marked
  obtain ⟨-, -, -, -, -, merged, -⟩ := numbers nofun
  obtain ⟨-, -, truths, -⟩ := evaluate_comparisons lead ["mark"] (.boolean false) marked
  obtain ⟨-, -, -, -, separate, -⟩ := truths rfl
  exact ⟨lead, merged, by decide +kernel, by decide +kernel, separate, by decide +kernel⟩

end Query

end DemoTape
