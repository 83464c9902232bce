/-
# Sampling a recording

A query is evaluated at the ticks of a grid: those that are a whole number of periods after the first frame.
Each match becomes a record. A `Sampler` decodes no further than it must for the next record, and so its
scene is that of the record it gave last. It gives a fault at most once, and nothing after a fault or the end.

`Samples.ofTranscript` takes the records of all the frames at once.
-/
import DemoTape.Query.Evaluation
import DemoTape.Query.Reader
import DemoTape.Recording
import DemoTape.Value.Text

namespace DemoTape
set_option autoImplicit false

structure Record where
  tick : Tick
  entity : EntityId
  values : Properties
  deriving DecidableEq, Repr

namespace Record

def json (r : Record) : Json := .object [
  ("tick", .nat r.tick.toNat),
  ("entity", .nat r.entity.toNat),
  ("values", .object (r.values.entries.map fun entry => (entry.1, entry.2.json)))]

end Record

/-- The records of a scene at a tick. -/
def Query.records (q : Query) (scene : Scene) (tick : Tick) : List Record :=
  (q.evaluate scene.entities).map fun found => ⟨tick, found.entity, found.values⟩

/-! ## The grid -/

/-- A number of ticks, at least one. -/
structure Period where
  ticks : UInt32
  positive : ticks ≠ 0
  deriving DecidableEq, Repr

namespace Period

def ofTicks (ticks : UInt32) : Except Fault Period :=
  if zero : ticks = 0 then .error (.period ticks) else .ok ⟨ticks, zero⟩

/-- Whether a tick lies on the grid that begins at `origin`. -/
def due (p : Period) (origin tick : Tick) : Bool := (tick - origin) % p.ticks = 0

end Period

/-! ## Record by record -/

structure Sampler where
  recording : Recording
  query : Query
  period : Period
  frames : FrameStream
  scene : Scene
  /-- The tick of the first frame. -/
  origin : Option Tick
  /-- The records of the current tick that have not been given yet. -/
  pending : List Record
  /-- At how many ticks the query has been evaluated. -/
  sampled : Nat
  finished : Bool
  deriving DecidableEq

namespace Sampler

/-- A sampler for these bytes. The period is checked first, then the query, then the header. -/
def ofBytes (data : Bytes) (path : String) (ticks : UInt32) : Except Fault Sampler := do
  let period ← Period.ofTicks ticks
  let query ← Query.read path
  let recording ← Recording.ofBytes data
  pure { recording, query, period, frames := recording.stream, scene := .empty, origin := none,
         pending := [], sampled := 0, finished := false }

/-- Decodes and applies one frame, and evaluates the query if the tick is due. -/
def advance (s : Sampler) : Option Fault × Sampler :=
  match s.frames.next with
  | (none, frames) => (none, { s with frames, finished := true })
  | (some (.error fault), frames) => (some fault, { s with frames, finished := true })
  | (some (.ok frame), frames) =>
    match s.scene.apply frame with
    | (some fault, scene) => (some fault, { s with frames, scene, finished := true })
    | (none, scene) =>
      let origin := s.origin.getD frame.tick
      let s := { s with frames, scene, origin := some origin }
      if s.period.due origin frame.tick then
        (none, { s with pending := s.query.records scene frame.tick, sampled := s.sampled + 1 })
      else (none, s)

/-- Advances until there is a record to give, for so many rounds. -/
def pull : (rounds : Nat) → Sampler → Option (Except Fault Record) × Sampler
  | 0, s => (none, s)
  | rounds + 1, s =>
    match s.pending with
    | record :: pending => (some (.ok record), { s with pending })
    | [] =>
      if s.finished then (none, s)
      else match s.advance with
        | (some fault, s) => (some (.error fault), s)
        | (none, s) => pull rounds s

/-- The next record. Each round takes a byte at least, except the one that finds the end and the last. -/
def next (s : Sampler) : Option (Except Fault Record) × Sampler := s.pull (s.frames.cursor.remaining + 2)

end Sampler

/-! ## All records at once -/

structure Samples where
  records : List Record
  /-- At how many ticks the query has been evaluated. -/
  sampled : Nat
  /-- What ended the records, if not the end of the recording. -/
  fault : Option Fault
  deriving DecidableEq, Repr

namespace Samples

/-- The records of these frames from a scene on; `ending` is what ends the frames. -/
def ofFrames (query : Query) (period : Period) (ending : Option Fault) :
    Option Tick → Scene → List Frame → Samples
  | _, _, [] => ⟨[], 0, ending⟩
  | origin, scene, frame :: rest =>
    match scene.apply frame with
    | (some fault, _) => ⟨[], 0, some fault⟩
    | (none, scene) =>
      let origin := origin.getD frame.tick
      let later := ofFrames query period ending (some origin) scene rest
      if period.due origin frame.tick then
        { later with records := query.records scene frame.tick ++ later.records, sampled := later.sampled + 1 }
      else later

def ofTranscript (query : Query) (period : Period) (t : Transcript) : Samples :=
  ofFrames query period t.fault none .empty t.frames

end Samples
end DemoTape
