/-
# Summaries

How many frames there are, at which ticks, how many messages of each sort, and how many bytes were skipped.
-/
import DemoTape.Recording

namespace DemoTape
set_option autoImplicit false

-- sums begin with the zero of the core library, whatever else is loaded
attribute [local instance (high)] Zero.ofOfNat0

/-- The bytes skipped with a message. -/
def Message.skippedBytes : Message → Nat
  | .other _ length => length.toNat
  | _ => 0

/-- The name of a sort in a document. -/
def MessageSort.field : MessageSort → String
  | .baseline => "EntityBaseline"
  | .delta => "EntityDelta"
  | .remove => "EntityRemove"
  | .table => "StringTableUpdate"
  | .command => "UserCommand"
  | .other => "Other"

structure Summary where
  frameCount : Nat
  firstTick : Option Tick
  lastTick : Option Tick
  /-- How often each sort occurs, for those that do, in the order of sorts. -/
  counts : List (MessageSort × Nat)
  skippedBytes : Nat
  deriving DecidableEq, Repr

namespace Summary

def ofFrames (frames : List Frame) : Summary :=
  let messages := frames.flatMap Frame.messages
  let occurrences := MessageSort.all.map fun sort => (sort, messages.countP (·.sort = sort))
  { frameCount := frames.length
    firstTick := frames.head?.map Frame.tick
    lastTick := frames.getLast?.map Frame.tick
    counts := occurrences.filter (·.2 ≠ 0)
    skippedBytes := (messages.map Message.skippedBytes).sum }

/-- How many messages there are of a sort. -/
def count (s : Summary) (sort : MessageSort) : Nat := (s.counts.lookup sort).getD 0

/-- The number of ticks from the first frame to the last, both included. -/
def tickSpan (s : Summary) : Nat :=
  match s.firstTick, s.lastTick with
  | some first, some last => last.toNat - first.toNat + 1
  | _, _ => 0

def json (s : Summary) : Json := .object [
  ("frame_count", .nat s.frameCount),
  ("first_tick", .optional (.nat ·.toNat) s.firstTick),
  ("last_tick", .optional (.nat ·.toNat) s.lastTick),
  ("message_counts", .object (s.counts.map fun entry => (entry.1.field, .nat entry.2))),
  ("skipped_bytes", .nat s.skippedBytes)]

end Summary
end DemoTape
