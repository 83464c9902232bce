/-
# Frames

A frame is a tick and the messages of that tick; ticks ascend strictly along a recording. A `FrameStream`
decodes one frame at each pull. It ends at the stop command, or with the first fault, and stays ended.
`FrameStream.transcript` is all that a stream yields: the frames and, if it does not end at the stop
command, the fault that ends it.
-/
import DemoTape.Message

namespace DemoTape
set_option autoImplicit false

structure Frame where
  tick : Tick
  messages : List Message
  /-- Where the command of the frame stands. -/
  offset : Nat
  deriving DecidableEq, Repr

namespace Frame

def packetCommand : UInt8 := 0x02
def stopCommand : UInt8 := 0x07

end Frame

namespace Decoder

/-- The body of a frame whose command stands at `start`. -/
def packet (last : Option Tick) (start : Nat) : Decoder Frame := do
  let tickStart ← offset
  let tick ← u32
  if let some last := last then
    if tick ≤ last then corrupt tickStart (.tickNotAfter tick last)
  let messages ← messages ((← remaining) + 1)
  pure { tick, messages, offset := start }

/-- The next frame, or none at the stop command. -/
def frame (last : Option Tick) : Decoder (Option Frame) := do
  let start ← offset
  if ← atEnd then corrupt start .missingStop
  else
    let command ← u8
    if command = Frame.stopCommand then pure none
    else if command = Frame.packetCommand then some <$> packet last start
    else corrupt start (.unknownCommand command)

end Decoder

structure FrameStream where
  cursor : Cursor
  lastTick : Option Tick
  /-- How many frames have been decoded. -/
  count : Nat
  finished : Bool
  deriving DecidableEq

namespace FrameStream

/-- The stream of the frames that begin at an offset of these bytes. -/
def ofBytes (data : Bytes) (offset : Nat) : FrameStream :=
  { cursor := .ofBytes data offset, lastTick := none, count := 0, finished := false }

def next (s : FrameStream) : Option (Except Fault Frame) × FrameStream :=
  if s.finished then (none, s)
  else match Decoder.frame s.lastTick s.cursor with
    | .ok (some frame) cursor =>
      (some (.ok frame), { s with cursor, lastTick := some frame.tick, count := s.count + 1 })
    | .ok none cursor => (none, { s with cursor, finished := true })
    | .error fault cursor => (some (.error fault), { s with cursor, finished := true })

/-- A stream that has ended stays as it is. -/
theorem next_of_finished {s : FrameStream} (ended : s.finished) : s.next = (none, s) := if_pos ended

/-- Only a frame leaves the stream open. -/
theorem finished_next {s : FrameStream} (no_frame : ∀ frame, s.next.1 ≠ some (.ok frame)) :
    s.next.2.finished := by
  unfold next at no_frame ⊢
  split
  · rename_i ended
    exact ended
  · split
    · rename_i open_ _ frame cursor decoded
      rw [if_neg open_, decoded] at no_frame
      exact absurd rfl (no_frame frame)
    · rfl
    · rfl

end FrameStream

/-! ## Transcripts -/

structure Transcript where
  frames : List Frame
  /-- What ended the frames, if not the stop command. -/
  fault : Option Fault
  deriving DecidableEq, Repr

namespace FrameStream

/-- What the stream yields in so many pulls. -/
def pull : (pulls : Nat) → FrameStream → Transcript
  | 0, _ => ⟨[], none⟩
  | pulls + 1, s =>
    match s.next with
    | (some (.ok frame), s) =>
      let rest := pull pulls s
      { rest with frames := frame :: rest.frames }
    | (some (.error fault), _) => ⟨[], some fault⟩
    | (none, _) => ⟨[], none⟩

/-- All that the stream yields. Every frame takes at least one byte, so one pull for each byte that is left
and one for the end suffice. -/
def transcript (s : FrameStream) : Transcript := s.pull (s.cursor.remaining + 1)

end FrameStream

/-- The frames of a transcript that no fault ended. -/
def Transcript.complete (t : Transcript) : Except Fault (List Frame) :=
  match t.fault with
  | none => .ok t.frames
  | some fault => .error fault

end DemoTape
