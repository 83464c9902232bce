/-
# Scenes

A scene is what the frames so far have built: the entities with their properties, the kind that each property
of each class had first, and the string tables. Applying a frame applies its messages in order. A message
that fails ends the frame; what was done before it stays done, and the tick of the scene stays the old one.

A property keeps its kind: an assignment of another kind fails, whatever became of the entities meanwhile.
-/
import DemoTape.Entities
import DemoTape.Frame

namespace DemoTape
set_option autoImplicit false

/-! ## Keys of two parts -/

/-- A property of a class. -/
@[ext] structure PropertyRef where
  cls : String
  property : String
  deriving DecidableEq, Repr

/-- A slot of a string table. -/
@[ext] structure SlotRef where
  table : String
  index : UInt16
  deriving DecidableEq, Repr

instance : Ord PropertyRef := ⟨compareLex (compareOn PropertyRef.cls) (compareOn PropertyRef.property)⟩
instance : Ord SlotRef := ⟨compareLex (compareOn SlotRef.table) (compareOn SlotRef.index)⟩

instance : Std.TransOrd PropertyRef :=
  inferInstanceAs (Std.TransCmp (compareLex (compareOn PropertyRef.cls) (compareOn PropertyRef.property)))

instance : Std.TransOrd SlotRef :=
  inferInstanceAs (Std.TransCmp (compareLex (compareOn SlotRef.table) (compareOn SlotRef.index)))

instance : Std.LawfulEqOrd PropertyRef where
  eq_of_compare {a b} equal := by
    obtain ⟨cls, property⟩ := Ordering.then_eq_eq.mp equal
    exact PropertyRef.ext (Std.LawfulEqOrd.eq_of_compare cls) (Std.LawfulEqOrd.eq_of_compare property)

instance : Std.LawfulEqOrd SlotRef where
  eq_of_compare {a b} equal := by
    obtain ⟨table, index⟩ := Ordering.then_eq_eq.mp equal
    exact SlotRef.ext (Std.LawfulEqOrd.eq_of_compare table) (Std.LawfulEqOrd.eq_of_compare index)

/-! ## String tables -/

abbrev StringTables := SortedMap SlotRef String

namespace StringTables

/-- The table of property names. -/
def propertyNames : String := "propnames"

/-- The table of players. -/
def players : String := "userinfo"

def write (tables : StringTables) (name : String) (entries : List TableEntry) : StringTables :=
  entries.foldl (fun tables entry => tables.insert ⟨name, entry.index⟩ entry.text) tables

def slot? (tables : StringTables) (name : String) (index : UInt16) : Option String :=
  tables.find? ⟨name, index⟩

/-- The written slots of a table in the order of their indices. -/
def slots (tables : StringTables) (name : String) : List (UInt16 × String) :=
  (tables.entries.filter fun entry => entry.1.table = name).map fun entry => (entry.1.index, entry.2)

end StringTables

/-! ## Scenes -/

structure Scene where
  entities : Entities
  /-- The first kind of each property. -/
  kinds : SortedMap PropertyRef Kind
  tables : StringTables
  /-- The tick of the last frame that was applied. -/
  tick : Option Tick
  /-- How many messages carried input of the player. -/
  commandCount : UInt64
  deriving DecidableEq, Repr

namespace Scene

def empty : Scene := { entities := ∅, kinds := ∅, tables := ∅, tick := none, commandCount := 0 }

/-- A computation that changes a scene; when it fails, the changes made so far stay. -/
abbrev Change := EStateM Fault Scene

namespace Change

/-- The name that a key stands for at this point. -/
def resolve (offset : Nat) : PropertyKey → Change String
  | .name s => pure s
  | .slot index => do
    match (← get).tables.slot? StringTables.propertyNames index with
    | some name => pure name
    | none => throw (.corrupt offset (.unnamedProperty index StringTables.propertyNames))

/-- The first kind of a property is kept; every other kind is refused. -/
def checkKind (cls property : String) (found : Kind) : Change Unit := do
  match (← get).kinds.find? ⟨cls, property⟩ with
  | none => modify fun scene => { scene with kinds := scene.kinds.insert ⟨cls, property⟩ found }
  | some expected => if expected ≠ found then throw (.kindChange cls property expected found)

/-- The name of an assigned property, once its kind is found good. -/
def vet (offset : Nat) (cls : String) (assignment : Assignment) : Change String := do
  let name ← resolve offset assignment.key
  checkKind cls name assignment.value.kind
  pure name

/-- These properties after some assignments. -/
def collect (offset : Nat) (cls : String) : Properties → List Assignment → Change Properties
  | properties, [] => pure properties
  | properties, assignment :: rest => do
    let name ← vet offset cls assignment
    collect offset cls (properties.insert name assignment.value) rest

/-- Assigns properties of the entity under an identifier, which is of this class, one after the other. -/
def patch (offset : Nat) (id : EntityId) (cls : String) : List Assignment → Change Unit
  | [] => pure ()
  | assignment :: rest => do
    let name ← vet offset cls assignment
    let assign (properties : Properties) := properties.insert name assignment.value
    modify fun scene => { scene with entities := scene.entities.modifyProperties id assign }
    patch offset id cls rest

/-- The change that a message makes; `offset` is that of its frame. -/
def message (offset : Nat) : Message → Change Unit
  | .baseline id cls assignments => do
    let properties ← collect offset cls ∅ assignments
    modify fun scene => { scene with entities := scene.entities.insert id { id, cls, properties } rfl }
  | .delta id assignments => do
    match (← get).entities.find? id with
    | some entity => patch offset id entity.cls assignments
    | none => throw (.corrupt offset (.untrackedEntity id))
  | .remove id => modify fun scene => { scene with entities := scene.entities.erase id }
  | .table name entries => modify fun scene => { scene with tables := scene.tables.write name entries }
  | .command _ _ => modify fun scene => { scene with commandCount := scene.commandCount + 1 }
  | .other _ _ => pure ()

def messages (offset : Nat) : List Message → Change Unit
  | [] => pure ()
  | first :: rest => do
    message offset first
    messages offset rest

theorem messages_append (offset : Nat) (ms ns : List Message) :
    messages offset (ms ++ ns) = (do messages offset ms; messages offset ns) := by
  induction ms with
  | nil => rfl
  | cons first rest ih =>
    rw [List.cons_append, messages, ih, messages]
    funext scene
    simp only [bind, EStateM.bind]
    split <;> rfl

def frame (frame : Frame) : Change Unit := do
  messages frame.offset frame.messages
  modify fun scene => { scene with tick := some frame.tick }

end Change

/-- The scene after a frame, and the fault that ended the frame early. -/
def apply (scene : Scene) (frame : Frame) : Option Fault × Scene :=
  match Change.frame frame scene with
  | .ok () scene => (none, scene)
  | .error fault scene => (some fault, scene)

/-- The scene after all these frames, unless one of them fails. -/
def replay (scene : Scene) : List Frame → Except Fault Scene
  | [] => .ok scene
  | frame :: rest =>
    match scene.apply frame with
    | (none, scene) => replay scene rest
    | (some fault, _) => .error fault

/-- The scene after all that a stream yields. A fault in a frame comes before the one that ends the frames. -/
def follow (scene : Scene) (t : Transcript) : Except Fault Scene := do
  let scene ← scene.replay t.frames
  match t.fault with
  | none => pure scene
  | some fault => throw fault

theorem replay_append (scene : Scene) (fs gs : List Frame) :
    scene.replay (fs ++ gs) = (do (← scene.replay fs).replay gs) := by
  induction fs generalizing scene with
  | nil => rfl
  | cons frame rest ih =>
    rw [List.cons_append, replay, replay]
    split
    · rw [ih]
    · rfl

end Scene
end DemoTape
