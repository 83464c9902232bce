/-
# Evaluating queries

The root of a snapshot has one collection for each class and one, `entities`, of all. A collection has its
entities as elements, an entity its properties, a vector its components. An entity also has the members `id`
and `classname`, unless properties of these names hide them.

A walk keeps the places it has reached, in the order of the entities. At the end, a collection stands for all
its entities, an entity for all its properties.
-/
import DemoTape.Query
import DemoTape.Scene

namespace DemoTape
set_option autoImplicit false

/-- An entity and the values bound for it, under their paths below the entity. -/
structure Match where
  entity : EntityId
  values : Properties
  deriving DecidableEq, Repr

/-- Where a walk has got to. -/
inductive Place where
  | root
  /-- The entities of a class, or all of them. -/
  | collection (cls : Option String)
  | entity (entity : Entity)
  | value (id : EntityId) (path : String) (value : Value)
  deriving DecidableEq, Repr

namespace Place

/-- The member of the root with all entities. -/
def allEntities : String := "entities"

/-- The value of a member of an entity. -/
def entityMember? (entity : Entity) (name : String) : Option Value :=
  match entity.properties.find? name with
  | some v => some v
  | none =>
    if name = "id" then some (.integer (Int64.ofNat entity.id.toNat))
    else if name = "classname" then some (.text entity.cls)
    else none

def member? (name : String) : Place → Option Place
  | .root => some (.collection (if name = allEntities then none else some name))
  | .collection _ => none
  | .entity e => (entityMember? e name).map (.value e.id name)
  | .value id path (.vector v) =>
    (v.component? name).map fun x => .value id (path ++ "." ++ name) (.float x.widen)
  | .value _ _ _ => none

/-- The place that a path of names leads to. -/
def follow? : List String → Place → Option Place
  | [], place => some place
  | name :: rest, place => (place.member? name).bind (follow? rest)

/-- The entities of a snapshot that are of a class, or all. -/
def ofClass (snapshot : Entities) (cls : Option String) : List Place :=
  (snapshot.all.filter fun e => cls.all (e.cls = ·)).map .entity

/-- The entities of a place that stands for some, and otherwise the place itself. -/
def expand (snapshot : Entities) : Place → List Place
  | .root => ofClass snapshot none
  | .collection cls => ofClass snapshot cls
  | place => [place]

def elements (snapshot : Entities) : Place → List Place
  | .entity e => e.properties.entries.map fun entry => .value e.id entry.1 entry.2
  | .value id path v => Vec3.axes.filterMap fun axis => (Place.value id path v).member? axis
  | place => place.expand snapshot

def meets (condition : Condition) (place : Place) : Bool :=
  match place.follow? condition.path with
  | some (.value _ _ v) => condition.comparison.holds v condition.literal
  | _ => false

/-- The match that a place other than the root and the collections stands for. -/
def match? : Place → Option Match
  | .entity e => some ⟨e.id, e.properties⟩
  | .value id path v => some ⟨id, .singleton path v⟩
  | _ => none

end Place

/-- The places that a step leads to from a place. -/
def Step.walk (snapshot : Entities) (place : Place) : Step → List Place
  | .field name => (place.member? name).toList
  | .wildcard => place.elements snapshot
  | .filter condition => (place.expand snapshot).filter (·.meets condition)

/-- The places that some steps lead to from some places. -/
def Step.walkAll (snapshot : Entities) (places : List Place) (steps : List Step) : List Place :=
  steps.foldl (fun places step => places.flatMap (step.walk snapshot)) places

theorem Step.walkAll_append (snapshot : Entities) (places : List Place) (first later : List Step) :
    walkAll snapshot places (first ++ later) = walkAll snapshot (walkAll snapshot places first) later :=
  List.foldl_append

/-- The matches of a query on a snapshot. -/
def Query.evaluate (q : Query) (snapshot : Entities) : List Match :=
  ((Step.walkAll snapshot [.root] q.steps).flatMap (Place.expand snapshot)).filterMap Place.match?

end DemoTape
