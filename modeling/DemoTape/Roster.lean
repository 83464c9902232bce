/-
# Rosters

The roster lists the players that the table of players ever named: each slot with each name once, at the tick
of its first appearance. An empty text names nobody.
-/
import DemoTape.Recording
import DemoTape.Scene

namespace DemoTape
set_option autoImplicit false

structure Player where
  slot : UInt16
  name : String
  firstTick : Tick
  deriving DecidableEq, Repr

namespace Player

def json (p : Player) : Json := .object [
  ("slot", .nat p.slot.toNat),
  ("name", .text p.name),
  ("first_tick", .nat p.firstTick.toNat)]

end Player

namespace Roster

/-- The players that a message names. -/
def named (tick : Tick) : Message → List Player
  | .table name entries =>
    if name = StringTables.players then
      (entries.filter fun entry => entry.text ≠ "").map fun entry => ⟨entry.index, entry.text, tick⟩
    else []
  | _ => []

/-- The players that some frames name, in order, with repetitions. -/
def appearances (frames : List Frame) : List Player :=
  frames.flatMap fun frame => frame.messages.flatMap (named frame.tick)

/-- The first appearance of each slot and name, apart from those seen before. -/
def firsts (seen : List (UInt16 × String)) : List Player → List Player
  | [] => []
  | player :: rest =>
    if seen.contains (player.slot, player.name) then firsts seen rest
    else player :: firsts ((player.slot, player.name) :: seen) rest

def ofFrames (frames : List Frame) : List Player := firsts [] (appearances frames)

end Roster

/-- The roster of the recording in these bytes. -/
def roster (data : Bytes) : Except Fault (List Player) := do
  let frames ← framesOf data
  pure (Roster.ofFrames frames)

end DemoTape
