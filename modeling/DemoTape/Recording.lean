/-
# Recordings

A recording is a header and the frames behind it.
-/
import DemoTape.Frame
import DemoTape.Header

namespace DemoTape
set_option autoImplicit false

structure Recording where
  header : Header
  data : Bytes
  deriving DecidableEq, Repr

namespace Recording

/-- The recording in these bytes. Its frames are not looked at. -/
def ofBytes (data : Bytes) : Except Fault Recording := do
  let header ← Header.read data
  pure { header, data }

def stream (r : Recording) : FrameStream := .ofBytes r.data Header.size

def transcript (r : Recording) : Transcript := r.stream.transcript

end Recording

/-- All the frames of a recording that is sound to its end. -/
def framesOf (data : Bytes) : Except Fault (List Frame) := do
  let recording ← Recording.ofBytes data
  recording.transcript.complete

end DemoTape
