/-
# The wire format

What a recording stores, and how. Numbers are stored with their lowest byte first, texts and lists behind their
length in two bytes, messages and values behind a byte for their kind, and a skipped payload behind its length
in four. A stored thing carries the bounds under which it can be stored; `encode` is how it is stored and
`content` what a reader is to make of it. Integers and floats are stored in half the width that they are read
in, and of a skipped payload only the length is read.

`MessageFits` says which messages can be stored: exactly those that are the content of a stored one
(`messageFits_iff` in `DemoTape.Proofs.Wire.Reading`). A message that skips its payload is the content of as
many as there are payloads of its length.
-/
import DemoTape.Frame

namespace DemoTape
namespace Wire
set_option autoImplicit false

-- powers are those of the core library, whatever else is loaded
attribute [local instance (high)] instPowNat

/-! ## Texts and lists -/

structure Text where
  content : String
  short : (Utf8.encode content).length ≤ 65535

def Text.encode (t : Text) : Bytes := Bytes.ofNat 2 (Utf8.encode t.content).length ++ Utf8.encode t.content

structure Counted (α : Type) where
  items : List α
  few : items.length ≤ 65535

def Counted.encode {α : Type} (item : α → Bytes) (c : Counted α) : Bytes :=
  Bytes.ofNat 2 c.items.length ++ c.items.flatMap item

/-! ## Properties -/

inductive Key where
  | name (t : Text)
  | slot (index : UInt16)

namespace Key

def encode : Key → Bytes
  | .name t => 0x00 :: t.encode
  | .slot index => 0x01 :: Bytes.ofNat 2 index.toNat

def content : Key → PropertyKey
  | .name t => .name t.content
  | .slot index => .slot index

end Key

inductive Value where
  | integer (i : Int32)
  | float (x : Binary32)
  | text (t : Text)
  | boolean (b : Bool)
  | vector (v : Vec3)

namespace Value

def encode : Value → Bytes
  | .integer i => 0x00 :: Bytes.ofNat 4 i.toUInt32.toNat
  | .float x => 0x01 :: Bytes.ofNat 4 x.toWord
  | .text t => 0x02 :: t.encode
  | .boolean b => [0x03, if b then 1 else 0]
  | .vector v => 0x04 :: (Bytes.ofNat 4 v.x.toWord ++ (Bytes.ofNat 4 v.y.toWord ++ Bytes.ofNat 4 v.z.toWord))

def content : Value → DemoTape.Value
  | .integer i => .integer i.toInt64
  | .float x => .float x.widen
  | .text t => .text t.content
  | .boolean b => .boolean b
  | .vector v => .vector v

end Value

structure Assignment where
  key : Key
  value : Value

namespace Assignment

def encode (a : Assignment) : Bytes := a.key.encode ++ a.value.encode
def content (a : Assignment) : DemoTape.Assignment := ⟨a.key.content, a.value.content⟩

end Assignment

structure TableEntry where
  index : UInt16
  text : Text

namespace TableEntry

def encode (e : TableEntry) : Bytes := Bytes.ofNat 2 e.index.toNat ++ e.text.encode
def content (e : TableEntry) : DemoTape.TableEntry := ⟨e.index, e.text.content⟩

end TableEntry

/-! ## Messages -/

inductive Message where
  | baseline (entity : EntityId) (cls : Text) (properties : Counted Assignment)
  | delta (entity : EntityId) (properties : Counted Assignment)
  | remove (entity : EntityId)
  | table (name : Text) (entries : Counted TableEntry)
  | command (sequence : UInt32) (input : Counted UInt8)
  | other (kind : UInt8) (payload : Bytes) (skipped : 0x80 ≤ kind) (short : payload.length < 2 ^ (32 : Nat))

namespace Message

def kind : Message → UInt8
  | .baseline _ _ _ => 0x01
  | .delta _ _ => 0x02
  | .remove _ => 0x03
  | .table _ _ => 0x04
  | .command _ _ => 0x05
  | .other kind _ _ _ => kind

/-- What stands behind the kind. -/
def body : Message → Bytes
  | .baseline entity cls properties =>
    Bytes.ofNat 4 entity.toNat ++ (cls.encode ++ properties.encode Assignment.encode)
  | .delta entity properties => Bytes.ofNat 4 entity.toNat ++ properties.encode Assignment.encode
  | .remove entity => Bytes.ofNat 4 entity.toNat
  | .table name entries => name.encode ++ entries.encode TableEntry.encode
  | .command sequence input => Bytes.ofNat 4 sequence.toNat ++ input.encode fun b => [b]
  | .other _ payload _ _ => Bytes.ofNat 4 payload.length ++ payload

def encode (m : Message) : Bytes := m.kind :: m.body

def content : Message → DemoTape.Message
  | .baseline entity cls properties => .baseline entity cls.content (properties.items.map Assignment.content)
  | .delta entity properties => .delta entity (properties.items.map Assignment.content)
  | .remove entity => .remove entity
  | .table name entries => .table name.content (entries.items.map TableEntry.content)
  | .command sequence input => .command sequence input.items
  | .other kind payload _ _ => .other kind (UInt32.ofNat payload.length)

end Message

/-! ## Frames -/

structure Frame where
  tick : Tick
  messages : List Message

namespace Frame

def encode (f : Frame) : Bytes :=
  0x02 :: (Bytes.ofNat 4 f.tick.toNat ++ (f.messages.flatMap Message.encode ++ [0x00]))

def content (f : Frame) : Tick × List DemoTape.Message := (f.tick, f.messages.map Message.content)

end Frame

/-- Frames one behind the other, without the stop command behind them. -/
def encode (frames : List Frame) : Bytes := frames.flatMap Frame.encode

theorem encode_cons (f : Frame) (frames : List Frame) : encode (f :: frames) = f.encode ++ encode frames :=
  List.flatMap_cons

/-- The frames as they are read, when the first one begins at this offset. -/
def placed : (offset : Nat) → List Frame → List DemoTape.Frame
  | _, [] => []
  | offset, f :: frames =>
    { tick := f.content.1, messages := f.content.2, offset } :: placed (offset + f.encode.length) frames

/-! ## What can be stored -/

def TextFits (s : String) : Prop := (Utf8.encode s).length ≤ 65535

def KeyFits : PropertyKey → Prop
  | .name s => TextFits s
  | .slot _ => True

def ValueFits : DemoTape.Value → Prop
  | .integer i => -2 ^ (31 : Nat) ≤ i.toInt ∧ i.toInt < 2 ^ (31 : Nat)
  | .float x => ∃ narrow : Binary32, narrow.widen = x
  | .text s => TextFits s
  | .boolean _ => True
  | .vector _ => True

def AssignmentFits (a : DemoTape.Assignment) : Prop := KeyFits a.key ∧ ValueFits a.value

def MessageFits : DemoTape.Message → Prop
  | .baseline _ cls properties =>
    TextFits cls ∧ properties.length ≤ 65535 ∧ ∀ a ∈ properties, AssignmentFits a
  | .delta _ properties => properties.length ≤ 65535 ∧ ∀ a ∈ properties, AssignmentFits a
  | .remove _ => True
  | .table name entries => TextFits name ∧ entries.length ≤ 65535 ∧ ∀ e ∈ entries, TextFits e.text
  | .command _ input => input.length ≤ 65535
  | .other kind _ => 0x80 ≤ kind

end Wire
end DemoTape
