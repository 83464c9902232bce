/-
# Change logs

The change log of a class has a record of an entity wherever its properties differ from those of the last
record of the entity. Removal leaves no record, and an entity that comes back as it was recorded last leaves
none either. Properties differ unless they have the same names and the same values, as numbers: an entity
with a NaN therefore differs at every tick.
-/
import DemoTape.Sampling

namespace DemoTape
set_option autoImplicit false

def Properties.same (p q : Properties) : Bool := SortedMap.sameBy Value.same p q

namespace ChangeLog

/-- The properties recorded last. -/
abbrev Recorded := SortedMap EntityId Properties

/-- Records an entity, if it has changed. -/
def note (tick : Tick) (recorded : Recorded) (id : EntityId) (properties : Properties) :
    Option Record × Recorded :=
  if (recorded.find? id).any properties.same then (none, recorded)
  else (some ⟨tick, id, properties⟩, recorded.insert id properties)

/-- Records those of some entities that have changed. -/
def noteAll (tick : Tick) : Recorded → List Entity → List Record × Recorded
  | recorded, [] => ([], recorded)
  | recorded, entity :: rest =>
    let (record, recorded) := note tick recorded entity.id entity.properties
    let (records, recorded) := noteAll tick recorded rest
    (record.toList ++ records, recorded)

/-- The records of these frames from a scene on. -/
def ofFrames (cls : String) : Recorded → Scene → List Frame → Except Fault (List Record)
  | _, _, [] => .ok []
  | recorded, scene, frame :: rest =>
    match scene.apply frame with
    | (some fault, _) => .error fault
    | (none, scene) => do
      let entities := scene.entities.all.filter (·.cls = cls)
      let (records, recorded) := noteAll frame.tick recorded entities
      let later ← ofFrames cls recorded scene rest
      pure (records ++ later)

/-- The change log of a class. A fault in a frame comes before one that ends the frames. -/
def ofTranscript (cls : String) (t : Transcript) : Except Fault (List Record) := do
  let records ← ofFrames cls ∅ .empty t.frames
  match t.fault with
  | none => pure records
  | some fault => throw fault

/-- The class with the state of the whole map. -/
def worldClass : String := "world"

end ChangeLog

/-- The change log of a class in these bytes. -/
def changeLog (data : Bytes) (cls : String) : Except Fault (List Record) := do
  let recording ← Recording.ofBytes data
  ChangeLog.ofTranscript cls recording.transcript

end DemoTape
