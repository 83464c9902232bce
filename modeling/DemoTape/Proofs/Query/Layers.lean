/-
# Every match is genuine and none is repeated

The places that a walk has reached are all as far below the root: all of them are collections, or all are entities, or
values of members, or components of vectors. How far that is depends on the steps alone (`Layer.ofSteps`). Each of these
places is one of the snapshot, as its layer has it (`Place.Stands`), and no two of them have both the same entity and
the same path below it (`Place.Apart`). One step keeps all of this (`Place.Stands.walk`, `Place.Stands.walk_apart`), and
so does a walk (`standing_walkAll`).

A path is a text, and the name of a property may well have a point in it, so that a component of one property can have
the path that another property has. But the two are not in one layer, and among the components a path tells the
property and the axis apart (`dotted_left`), since all axes are of the same length.
-/
import DemoTape.Proofs.Query.Order

namespace DemoTape
set_option autoImplicit false

/-! ## Layers -/

/-- How far below the root the places of a walk are. -/
inductive Layer where
  | root
  | collection
  | entity
  | member
  | component
  /-- There is nothing below the components. -/
  | nowhere
  deriving DecidableEq, Repr

namespace Layer

/-- The layer of what the places are expanded to. -/
def expanded : Layer → Layer
  | .root => .entity
  | .collection => .entity
  | layer => layer

/-- The layer of the members. -/
def below : Layer → Layer
  | .root => .collection
  | .entity => .member
  | .member => .component
  | _ => .nowhere

/-- The layer of the elements. -/
def opened : Layer → Layer
  | .root => .entity
  | .collection => .entity
  | layer => layer.below

def after (layer : Layer) : Step → Layer
  | .field _ => layer.below
  | .wildcard => layer.opened
  | .filter _ => layer.expanded

/-- The layer that some steps lead to from the root. -/
def ofSteps (steps : List Step) : Layer := steps.foldl after .root

end Layer

/-! ## Places of a layer -/

namespace Place

/-- What tells a place from the others of its layer: the entity that it is of and its path below the entity. -/
def key : Place → Option EntityId × Option String
  | .root => (none, none)
  | .collection _ => (none, none)
  | .entity e => (some e.id, none)
  | .value id path _ => (some id, some path)

/-- Whether two places are of different entities or have different paths. -/
def Apart (p q : Place) : Prop := p.key ≠ q.key

/-- Whether a place is of this layer, and of the snapshot. -/
inductive Stands (snapshot : Entities) : Layer → Place → Prop
  | root : Stands snapshot .root .root
  | collection (cls : Option String) : Stands snapshot .collection (.collection cls)
  | entity {e : Entity} (there : snapshot.find? e.id = some e) : Stands snapshot .entity (.entity e)
  | member {e : Entity} {name : String} {v : Value} (there : snapshot.find? e.id = some e)
      (bound : entityMember? e name = some v) : Stands snapshot .member (.value e.id name v)
  | component {e : Entity} {name axis : String} {v : Vec3} {x : Binary32} (there : snapshot.find? e.id = some e)
      (bound : entityMember? e name = some (.vector v)) (found : v.component? axis = some x) :
      Stands snapshot .component (.value e.id (name ++ "." ++ axis) (.float x.widen))

end Place

/-- Whether all places are of this layer, and all of them apart. -/
structure Standing (snapshot : Entities) (layer : Layer) (places : List Place) : Prop where
  stands : ∀ p ∈ places, p.Stands snapshot layer
  apart : places.Pairwise Place.Apart

/-! ## Paths -/

/-- A component is that of its axis. -/
theorem pair_of_component? {v : Vec3} {axis : String} {x : Binary32} (found : v.component? axis = some x) :
    (axis, x) ∈ [("x", v.x), ("y", v.y), ("z", v.z)] := by
  unfold Vec3.component? at found
  split at found
  · simp_all
  split at found
  · simp_all
  split at found
  · simp_all
  · cases found

theorem axis_of_component? {v : Vec3} {axis : String} {x : Binary32} (found : v.component? axis = some x) :
    axis ∈ Vec3.axes :=
  List.mem_map_of_mem (f := Prod.fst) (pair_of_component? found)

/-- The path of a component tells the path of the vector, since all axes are of the same length. -/
theorem dotted_left {s t a b : String} (first : a ∈ Vec3.axes) (second : b ∈ Vec3.axes)
    (same : s ++ "." ++ a = t ++ "." ++ b) : s = t := by
  have length {axis : String} (mem : axis ∈ Vec3.axes) : axis.toList.length = 1 := by
    simp only [Vec3.axes, List.mem_cons, List.not_mem_nil, or_false] at mem
    rcases mem with rfl | rfl | rfl <;> rfl
  have lists := congrArg String.toList same
  simp only [String.toList_append, List.append_assoc] at lists
  refine String.toList_inj.mp (List.append_inj_left' lists ?_)
  simp [length first, length second]

theorem dotted_right {s a b : String} (same : s ++ "." ++ a = s ++ "." ++ b) : a = b := by
  have lists := congrArg String.toList same
  simp only [String.toList_append] at lists
  exact String.toList_inj.mp (List.append_cancel_left lists)

namespace Place
variable {snapshot : Entities} {layer : Layer} {p q : Place}

theorem key_fst (p : Place) : p.key.1 = p.id? := by
  cases p <;> rfl

/-- Places of different entities are apart. -/
theorem apart_of_id {i j : EntityId} (first : p.id? = some i) (second : q.id? = some j) (other : i ≠ j) :
    p.Apart q := by
  intro same
  have ids := congrArg Prod.fst same
  rw [key_fst, key_fst, first, second] at ids
  exact other (Option.some.inj ids)

/-- A member of a value has the path of the value, a point and its own name. -/
theorem member?_value {id : EntityId} {path name : String} {v : Value}
    (found : (Place.value id path v).member? name = some q) :
    ∃ u x, v = .vector u ∧ u.component? name = some x ∧ q = .value id (path ++ "." ++ name) (.float x.widen) := by
  cases v with
  | vector u =>
    obtain ⟨x, there, rfl⟩ := Option.map_eq_some_iff.mp found
    exact ⟨u, x, rfl, there, rfl⟩
  | integer i => cases found
  | float x => cases found
  | text s => cases found
  | boolean b => cases found

/-! ## One step -/

theorem Stands.member? {name : String} (stands : p.Stands snapshot layer) (found : p.member? name = some q) :
    q.Stands snapshot layer.below := by
  cases stands with
  | root =>
    cases found
    exact .collection _
  | collection cls => cases found
  | entity there =>
    obtain ⟨v, bound, rfl⟩ := Option.map_eq_some_iff.mp found
    exact .member there bound
  | member there bound =>
    obtain ⟨u, x, rfl, component, rfl⟩ := member?_value found
    exact .component there bound component
  | component there bound component =>
    obtain ⟨u, x, scalar, -⟩ := member?_value found
    cases scalar

theorem standing_ofClass (snapshot : Entities) (cls : Option String) :
    Standing snapshot .entity (ofClass snapshot cls) := by
  constructor
  · intro p mem
    obtain ⟨e, kept, rfl⟩ := List.mem_map.mp mem
    exact .entity (Entities.mem_all.mp (List.mem_filter.mp kept).1)
  · have ordered := snapshot.all_ascending.sublist (List.filter_sublist (p := fun e => cls.all (e.cls = ·)))
    exact List.pairwise_map.mpr (ordered.imp fun less => apart_of_id rfl rfl (UInt32.ne_of_lt less))

theorem standing_singleton (stands : p.Stands snapshot layer) : Standing snapshot layer [p] := by
  constructor
  · intro q mem
    rwa [List.mem_singleton.mp mem]
  · exact List.pairwise_singleton _ _

theorem Stands.expand (stands : p.Stands snapshot layer) : Standing snapshot layer.expanded (p.expand snapshot) := by
  cases stands with
  | root => exact standing_ofClass snapshot none
  | collection cls => exact standing_ofClass snapshot cls
  | entity there => exact standing_singleton (.entity there)
  | member there bound => exact standing_singleton (.member there bound)
  | component there bound component => exact standing_singleton (.component there bound component)

theorem standing_properties {e : Entity} (there : snapshot.find? e.id = some e) :
    Standing snapshot .member ((Place.entity e).elements snapshot) := by
  constructor
  · intro p mem
    obtain ⟨⟨name, v⟩, owned, rfl⟩ := List.mem_map.mp mem
    refine .member there ?_
    rw [entityMember?, (SortedMap.mem_entries_iff _ _ _).mp owned]
  · refine List.pairwise_map.mpr (e.properties.ascending.imp fun {a b} less => ?_)
    intro same
    have names : a.1 = b.1 := Option.some.inj (congrArg Prod.snd same)
    simp [names, Std.ReflCmp.compare_self] at less

theorem standing_components {id : EntityId} {path : String} {v : Value}
    (stands : (Place.value id path v).Stands snapshot layer) :
    Standing snapshot layer.below ((Place.value id path v).elements snapshot) := by
  constructor
  · intro q mem
    obtain ⟨axis, -, found⟩ := List.mem_filterMap.mp mem
    exact stands.member? found
  · have axes : Vec3.axes.Pairwise (· ≠ ·) := by decide
    refine List.pairwise_filterMap.mpr (axes.imp fun {a b} other => ?_)
    intro x here y there same
    obtain ⟨_, _, -, -, rfl⟩ := member?_value here
    obtain ⟨_, _, -, -, rfl⟩ := member?_value there
    exact other (dotted_right (Option.some.inj (congrArg Prod.snd same)))

theorem Stands.elements (stands : p.Stands snapshot layer) : Standing snapshot layer.opened (p.elements snapshot) := by
  cases stands with
  | root => exact standing_ofClass snapshot none
  | collection cls => exact standing_ofClass snapshot cls
  | entity there => exact standing_properties there
  | member there bound => exact standing_components (.member there bound)
  | component there bound component => exact standing_components (.component there bound component)

/-- A step leads from a place to places of one layer, and to none of them twice. -/
theorem Stands.walk (stands : p.Stands snapshot layer) (step : Step) :
    Standing snapshot (layer.after step) (step.walk snapshot p) := by
  cases step with
  | wildcard => exact stands.elements
  | filter condition =>
    constructor
    · intro q mem
      exact stands.expand.stands q (List.mem_filter.mp mem).1
    · exact stands.expand.apart.sublist List.filter_sublist
  | field name =>
    constructor
    · intro q mem
      exact stands.member? (Option.mem_toList.mp mem)
    · rw [Step.walk]
      cases p.member? name with
      | none => exact .nil
      | some q => exact List.pairwise_singleton _ _

/-- Members of values with different paths are apart. -/
theorem member?_apart {id id' : EntityId} {path path' a b : String} {v w : Value} (other : path ≠ path')
    (first : (Place.value id path v).member? a = some p) (second : (Place.value id' path' w).member? b = some q) :
    p.Apart q := by
  obtain ⟨_, _, -, found, rfl⟩ := member?_value first
  obtain ⟨_, _, -, found', rfl⟩ := member?_value second
  intro same
  have paths := Option.some.inj (congrArg Prod.snd same)
  exact other (dotted_left (axis_of_component? found) (axis_of_component? found') paths)

/-- A step leads from values that are apart to places that are apart. -/
theorem walk_apart_value {id id' : EntityId} {path path' : String} {v w : Value}
    (apart : (Place.value id path v).Apart (.value id' path' w)) (step : Step) :
    ∀ x ∈ step.walk snapshot (.value id path v), ∀ y ∈ step.walk snapshot (.value id' path' w), x.Apart y := by
  intro x here y there
  by_cases entities : id = id'
  · have other : path ≠ path' := fun same => apart (by rw [entities, same]; rfl)
    cases step with
    | field name => exact member?_apart other (Option.mem_toList.mp here) (Option.mem_toList.mp there)
    | wildcard =>
      obtain ⟨a, -, found⟩ := List.mem_filterMap.mp here
      obtain ⟨b, -, found'⟩ := List.mem_filterMap.mp there
      exact member?_apart other found found'
    | filter condition =>
      rw [List.mem_singleton.mp (List.mem_filter.mp here).1, List.mem_singleton.mp (List.mem_filter.mp there).1]
      exact apart
  · exact apart_of_id (Step.walk_id snapshot rfl step x here) (Step.walk_id snapshot rfl step y there) entities

/-- A step leads from places of one layer that are apart to places that are apart. -/
theorem Stands.walk_apart (here : p.Stands snapshot layer) (there : q.Stands snapshot layer) (apart : p.Apart q)
    (step : Step) : ∀ x ∈ step.walk snapshot p, ∀ y ∈ step.walk snapshot q, x.Apart y := by
  cases here with
  | root =>
    cases there
    exact absurd rfl apart
  | collection cls =>
    cases there
    exact absurd rfl apart
  | @entity e =>
    cases there with
    | @entity f =>
      have other : e.id ≠ f.id := fun same => apart (Prod.ext (congrArg some same) rfl)
      intro x memx y memy
      exact apart_of_id (Step.walk_id snapshot rfl step x memx) (Step.walk_id snapshot rfl step y memy) other
  | member =>
    cases there
    exact walk_apart_value apart step
  | component =>
    cases there
    exact walk_apart_value apart step

end Place

/-! ## Walks -/

variable {snapshot : Entities} {layer : Layer} {places : List Place}

/-- What leads from a place to places of a layer that are apart, and from places that are apart to such ones, leads
from all places of a layer to places of a layer. -/
theorem Standing.flatMap {f : Place → List Place} {next : Layer} (standing : Standing snapshot layer places)
    (each : ∀ p, p.Stands snapshot layer → Standing snapshot next (f p))
    (apart : ∀ p q, p.Stands snapshot layer → q.Stands snapshot layer → p.Apart q →
      ∀ x ∈ f p, ∀ y ∈ f q, x.Apart y) :
    Standing snapshot next (places.flatMap f) := by
  constructor
  · intro q mem
    obtain ⟨p, there, mem⟩ := List.mem_flatMap.mp mem
    exact (each p (standing.stands p there)).stands q mem
  · refine List.pairwise_flatMap.mpr ⟨fun p there => (each p (standing.stands p there)).apart, ?_⟩
    refine standing.apart.imp_of_mem fun {p q} here there other => ?_
    exact apart p q (standing.stands p here) (standing.stands q there) other

theorem Standing.walkAll (standing : Standing snapshot layer places) (steps : List Step) :
    Standing snapshot (steps.foldl Layer.after layer) (Step.walkAll snapshot places steps) := by
  induction steps generalizing layer places with
  | nil => exact standing
  | cons step rest ih =>
    refine ih (standing.flatMap (fun p stands => stands.walk step) ?_)
    intro p q here there apart
    exact here.walk_apart there apart step

/-- The places that some steps lead to are of the layer of the steps. -/
theorem standing_walkAll (snapshot : Entities) (steps : List Step) :
    Standing snapshot (.ofSteps steps) (Step.walkAll snapshot [.root] steps) :=
  (Place.standing_singleton .root).walkAll steps

/-- Expanding keeps apart what is apart. -/
theorem Place.Stands.expand_apart {p q : Place} (here : p.Stands snapshot layer) (there : q.Stands snapshot layer)
    (apart : p.Apart q) : ∀ x ∈ p.expand snapshot, ∀ y ∈ q.expand snapshot, x.Apart y := by
  intro x memx y memy
  cases here with
  | root =>
    cases there
    exact absurd rfl apart
  | collection cls =>
    cases there
    exact absurd rfl apart
  | entity | member | component =>
    cases there
    rwa [List.mem_singleton.mp memx, List.mem_singleton.mp memy]

/-- The places that the matches of some steps are made of. -/
theorem standing_expanded (snapshot : Entities) (steps : List Step) :
    Standing snapshot (Layer.ofSteps steps).expanded
      ((Step.walkAll snapshot [.root] steps).flatMap (Place.expand snapshot)) := by
  refine (standing_walkAll snapshot steps).flatMap (fun p stands => stands.expand) ?_
  intro p q here there apart
  exact here.expand_apart there apart

/-! ## Matches -/

/-- What an entity binds: its properties under their names, its id and its class where no property hides them, and the
components of its vectors under the name of the vector, a point and the axis. -/
inductive Entity.Binds (e : Entity) : String → Value → Prop
  | property {name : String} {v : Value} (owned : e.properties.find? name = some v) : Binds e name v
  | id (free : e.properties.find? "id" = none) : Binds e "id" (.integer (Int64.ofNat e.id.toNat))
  | classname (free : e.properties.find? "classname" = none) : Binds e "classname" (.text e.cls)
  | component {name axis : String} {v : Vec3} {x : Binary32} (owned : e.properties.find? name = some (.vector v))
      (pair : (axis, x) ∈ [("x", v.x), ("y", v.y), ("z", v.z)]) : Binds e (name ++ "." ++ axis) (.float x.widen)

namespace Match

/-- The paths that a match binds. -/
def paths (m : Match) : List String := m.values.entries.map Prod.fst

/-- Whether a match has all properties of an entity of the snapshot. -/
def Whole (snapshot : Entities) (m : Match) : Prop :=
  ∃ e, snapshot.find? m.entity = some e ∧ m.values = e.properties

/-- Whether a match has one path alone, with what an entity of the snapshot binds under it. -/
def Bound (snapshot : Entities) (m : Match) : Prop :=
  ∃ e path v, snapshot.find? m.entity = some e ∧ e.Binds path v ∧ m.values = .singleton path v

end Match

namespace Place
variable {p q : Place} {m n : Match}

theorem binds_of_member {e : Entity} {name : String} {v : Value} (bound : entityMember? e name = some v) :
    e.Binds name v := by
  rw [entityMember?] at bound
  split at bound
  case h_1 owned =>
    cases bound
    exact .property owned
  case h_2 free =>
    split at bound
    case isTrue here =>
      cases bound
      subst here
      exact .id free
    split at bound
    case isTrue here =>
      cases bound
      subst here
      exact .classname free
    case isFalse => cases bound

/-- Only properties are vectors. -/
theorem property_of_vector {e : Entity} {name : String} {v : Vec3}
    (bound : entityMember? e name = some (.vector v)) : e.properties.find? name = some (.vector v) := by
  cases binds_of_member bound with
  | property owned => exact owned

theorem Stands.whole (stands : p.Stands snapshot .entity) (made : p.match? = some m) : m.Whole snapshot := by
  cases stands with
  | @entity e there =>
    cases made
    exact ⟨e, there, rfl⟩

theorem Stands.bound (stands : p.Stands snapshot layer) (lower : layer ≠ .entity) (made : p.match? = some m) :
    m.Bound snapshot := by
  cases stands with
  | root => cases made
  | collection cls => cases made
  | entity there => exact absurd rfl lower
  | @member e name v there bound =>
    cases made
    exact ⟨e, name, v, there, binds_of_member bound, rfl⟩
  | component there bound found =>
    cases made
    exact ⟨_, _, _, there, .component (property_of_vector bound) (pair_of_component? found), rfl⟩

/-- Places of a layer that are apart make matches that differ in the entity or in the path. -/
theorem Stands.differ (here : p.Stands snapshot layer) (there : q.Stands snapshot layer) (apart : p.Apart q)
    (first : p.match? = some m) (second : q.match? = some n) :
    m.entity ≠ n.entity ∨ layer ≠ .entity ∧ m.paths ≠ n.paths := by
  refine Decidable.or_iff_not_imp_left.mpr fun same => ?_
  have entities : m.entity = n.entity := Decidable.of_not_not same
  cases here with
  | root => cases first
  | collection cls => cases first
  | entity =>
    cases there
    cases first
    cases second
    exact (apart (Prod.ext (congrArg some entities) rfl)).elim
  | member | component =>
    cases there
    cases first
    cases second
    refine ⟨nofun, fun paths => apart ?_⟩
    have path := (List.cons.inj paths).1
    exact Prod.ext (congrArg some entities) (congrArg some path)

end Place

/-- **Every match is genuine and none is repeated.** Either all matches of a query have all properties of an entity of
the snapshot, and no entity is matched twice; or all have one path alone, with what an entity of the snapshot binds
under it, and no two have the same entity and the same path. -/
theorem Query.evaluate_genuine (q : Query) (snapshot : Entities) :
    ((∀ m ∈ q.evaluate snapshot, m.Whole snapshot) ∧
      (q.evaluate snapshot).Pairwise fun m n => m.entity ≠ n.entity) ∨
    ((∀ m ∈ q.evaluate snapshot, m.Bound snapshot) ∧
      (q.evaluate snapshot).Pairwise fun m n => m.entity ≠ n.entity ∨ m.paths ≠ n.paths) := by
  have standing := standing_expanded snapshot q.steps
  have differ : (q.evaluate snapshot).Pairwise fun m n => m.entity ≠ n.entity ∨
      (Layer.ofSteps q.steps).expanded ≠ .entity ∧ m.paths ≠ n.paths := by
    refine List.pairwise_filterMap.mpr (standing.apart.imp_of_mem fun {x y} here there apart => ?_)
    intro m first n second
    exact (standing.stands x here).differ (standing.stands y there) apart first second
  by_cases entities : (Layer.ofSteps q.steps).expanded = .entity
  · left
    constructor
    · intro m mem
      obtain ⟨p, there, made⟩ := List.mem_filterMap.mp mem
      have stands := standing.stands p there
      rw [entities] at stands
      exact stands.whole made
    · exact differ.imp fun differs => differs.resolve_right fun lower => lower.1 entities
  · right
    constructor
    · intro m mem
      obtain ⟨p, there, made⟩ := List.mem_filterMap.mp mem
      exact (standing.stands p there).bound entities made
    · exact differ.imp fun differs => differs.imp_right And.right

/-- A tree with a property under the path that a component of its place has. -/
def Query.dotted : Entities := .ofList
  [⟨1, "tree", .ofList [("at", .vector ⟨.ofInt _ 1, .ofInt _ 2, .ofInt _ 3⟩), ("at.x", .boolean true)]⟩]

example :
    ((Query.mk [.wildcard, .wildcard]).evaluate Query.dotted).map Match.paths = [["at"], ["at.x"]] ∧
      ((Query.mk [.wildcard, .field "at", .wildcard]).evaluate Query.dotted).map Match.paths =
        [["at.x"], ["at.y"], ["at.z"]] := by decide +kernel

end DemoTape
