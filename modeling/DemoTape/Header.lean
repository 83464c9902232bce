/-
# Headers

A recording begins with 1068 bytes: the signature, the version of its protocol, the version of the network
protocol, four names in fields of 260 bytes each, the playback time in seconds, and the numbers of ticks and
frames. The checks run in this order: the signature, the protocol version, the size of the header.
-/
import DemoTape.Bytes.Cursor
import DemoTape.Number.Layout
import DemoTape.Text.Json

namespace DemoTape
set_option autoImplicit false

-- powers are those of the core library, whatever else is loaded
attribute [local instance (high)] instPowNat

structure Header where
  demoProtocol : UInt32
  networkProtocol : UInt32
  serverName : String
  clientName : String
  mapName : String
  gameDirectory : String
  playbackTime : Binary32
  tickCount : UInt32
  frameCount : UInt32
  deriving DecidableEq, Repr

namespace Header

/-- The bytes of `HL2DEMO` and a zero. -/
def signature : Bytes := [0x48, 0x4C, 0x32, 0x44, 0x45, 0x4D, 0x4F, 0x00]

def lowestProtocol : UInt32 := 3
def highestProtocol : UInt32 := 4

def size : Nat := 1068
def nameSize : Nat := 260

/-- The protocol version of a recording, if it is one that can be read. -/
def readProtocol (data : Bytes) : Except Fault UInt32 := do
  if data.take signature.length ≠ signature then
    throw (.signature signature (data.take signature.length))
  let version ← Decoder.u32.readAt data signature.length
  if version < lowestProtocol ∨ highestProtocol < version then
    throw (.protocol version lowestProtocol highestProtocol)
  pure version

/-- What follows the protocol version. -/
def fields (demoProtocol : UInt32) : Decoder Header := do
  let networkProtocol ← Decoder.u32
  let serverName ← Decoder.fixedText nameSize
  let clientName ← Decoder.fixedText nameSize
  let mapName ← Decoder.fixedText nameSize
  let gameDirectory ← Decoder.fixedText nameSize
  let playbackTime ← Decoder.f32
  let tickCount ← Decoder.u32
  let frameCount ← Decoder.u32
  pure { demoProtocol, networkProtocol, serverName, clientName, mapName, gameDirectory, playbackTime,
         tickCount, frameCount }

def read (data : Bytes) : Except Fault Header := do
  let demoProtocol ← readProtocol data
  if data.length < size then
    throw (.corrupt data.length (.shortHeader size data.length))
  (fields demoProtocol).readAt data (signature.length + 4)

/-! ## Derived figures -/

/-- The length of one tick in seconds; zero without any ticks. -/
def tickInterval (h : Header) : Binary32 :=
  if h.tickCount = 0 then .ofInt .single 0
  else h.playbackTime.div (.ofInt .single h.tickCount.toNat)

/-- The playback time in whole seconds; zero if it is negative or NaN. -/
def seconds (h : Header) : Nat :=
  if h.playbackTime.negative then 0 else h.playbackTime.wholePart (2 ^ (32 : Nat) - 1)

/-- The playback time in minutes and seconds. -/
def duration (h : Header) : String :=
  let seconds := toString (h.seconds % 60)
  s!"{h.seconds / 60}:" ++ Layout.zeros (2 - seconds.length) ++ seconds

def json (h : Header) : Json := .object [
  ("demo_protocol", .nat h.demoProtocol.toNat),
  ("network_protocol", .nat h.networkProtocol.toNat),
  ("server_name", .text h.serverName),
  ("client_name", .text h.clientName),
  ("map_name", .text h.mapName),
  ("game_directory", .text h.gameDirectory),
  ("playback_time", .number (Layout.jsonSingle.write h.playbackTime)),
  ("tick_count", .nat h.tickCount.toNat),
  ("frame_count", .nat h.frameCount.toNat)]

end Header
end DemoTape
