/-
# Listings

What the commands show to a reader, line by line.
-/
import DemoTape.Audit
import DemoTape.Roster
import DemoTape.Sampling
import DemoTape.Summary

namespace DemoTape
set_option autoImplicit false

namespace Listing

/-- The text with blanks in front of it up to a width. -/
def right (width : Nat) (text : String) : String :=
  String.ofList (List.replicate (width - text.length) ' ') ++ text

/-- The text with blanks behind it up to a width. -/
def left (width : Nat) (text : String) : String :=
  text ++ String.ofList (List.replicate (width - text.length) ' ')

/-- A label and what belongs to it. -/
def labelled (label text : String) : String := left 18 (label ++ ":") ++ text

def headerLines (size : Nat) (h : Header) : List String :=
  ["=== Demo Information ===",
   "",
   labelled "File Size" (toString size ++ " bytes"),
   labelled "Demo Protocol" (toString h.demoProtocol),
   labelled "Network Protocol" (toString h.networkProtocol),
   labelled "Server" h.serverName,
   labelled "Client" h.clientName,
   labelled "Map" h.mapName,
   labelled "Game Directory" h.gameDirectory,
   labelled "Duration" h.duration,
   labelled "Ticks" (toString h.tickCount),
   labelled "Tick Interval" (h.tickInterval.fourPlaces ++ "s")]

def tickRangeLines (s : Summary) : List String :=
  match s.firstTick, s.lastTick with
  | some first, some last => [labelled "Tick range" s!"{first}..={last}"]
  | _, _ => []

def countLines (s : Summary) : List String :=
  if s.counts.isEmpty then []
  else "" :: "Messages by Kind:" ::
    s.counts.map fun entry => "  " ++ left 20 entry.1.label ++ " " ++ right 8 (toString entry.2)

def summaryLines (s : Summary) : List String :=
  ["", "=== Frames ===", "", labelled "Frames decoded" (toString s.frameCount)] ++ tickRangeLines s ++
    [labelled "Skipped bytes" (toString s.skippedBytes)] ++ countLines s

def recordLine (r : Record) : String :=
  let values := r.values.entries.map fun entry => entry.1 ++ "=" ++ entry.2.display
  "[" ++ right 6 (toString r.tick) ++ "] #" ++ left 5 (toString r.entity) ++ " " ++ " ".intercalate values

def playerLine (p : Player) : String :=
  "  Slot " ++ right 2 (toString p.slot) ++ ": " ++ p.name ++ s!" (from tick {p.firstTick})"

def rosterLines (players : List Player) : List String :=
  s!"=== Players ({players.length}) ===" :: players.map playerLine

/-! ## Audits -/

/-- How an audit that passed some stages, and failed in the next or did not, marks a stage. -/
def stageMark (passed : Nat) (failed : Bool) (stage : Nat) : String :=
  if stage < passed then "[OK]"
  else if stage = passed && failed then "[FAIL]"
  else "[SKIP]"

def verdict (valid : Bool) : String := if valid then "VALID" else "INVALID"

/-- A heading and the items below it, if there are any. -/
def paragraph (heading : String) (items : List String) : List String :=
  if items.isEmpty then [] else "" :: heading :: items.map ("  - " ++ ·)

/-- The lines of an audit of a file; `problem` says what went wrong, if anything did. -/
def auditLines (file : String) (passed : Nat) (problem : Option String) (warnings : List Warning) : List String :=
  [s!"Validating: {file}", "", "Checks:"] ++
    Stage.all.mapIdx (fun i stage => "  " ++ left 22 stage.label ++ " " ++ stageMark passed problem.isSome i) ++
    paragraph "Error:" problem.toList ++
    paragraph "Warnings:" (warnings.map Warning.message) ++
    ["", "Result: " ++ verdict (Stage.completed passed problem)]

end Listing
end DemoTape
