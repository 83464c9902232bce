/-
# Messages

A message creates an entity, changes some of its properties, removes it, writes slots of a string table,
carries the input of the player, or is of a kind that is skipped over. Its first byte is its kind; those from
`80` on have their length in front and need not be understood.

A property is named in full or by a slot of the table of property names. What a slot holds is not known here,
since it changes along the recording.
-/
import DemoTape.Bytes.Cursor

namespace DemoTape
set_option autoImplicit false

abbrev Tick := UInt32
abbrev EntityId := UInt32

/-- How an update names a property. -/
inductive PropertyKey where
  | name (s : String)
  | slot (index : UInt16)
  deriving DecidableEq, Repr

/-- One property and its new value. -/
structure Assignment where
  key : PropertyKey
  value : Value
  deriving DecidableEq, Repr

/-- One slot of a string table and its new text. -/
structure TableEntry where
  index : UInt16
  text : String
  deriving DecidableEq, Repr

inductive Message where
  | baseline (entity : EntityId) (cls : String) (properties : List Assignment)
  | delta (entity : EntityId) (properties : List Assignment)
  | remove (entity : EntityId)
  | table (name : String) (entries : List TableEntry)
  | command (sequence : UInt32) (input : Bytes)
  | other (kind : UInt8) (length : UInt32)
  deriving DecidableEq, Repr

/-- The sorts of messages, in the order in which they are counted. -/
inductive MessageSort where
  | baseline
  | delta
  | remove
  | table
  | command
  | other
  deriving DecidableEq, Repr

def Message.sort : Message → MessageSort
  | .baseline _ _ _ => .baseline
  | .delta _ _ => .delta
  | .remove _ => .remove
  | .table _ _ => .table
  | .command _ _ => .command
  | .other _ _ => .other

namespace MessageSort

def all : List MessageSort := [.baseline, .delta, .remove, .table, .command, .other]

def label : MessageSort → String
  | .baseline => "baseline"
  | .delta => "delta"
  | .remove => "remove"
  | .table => "string table"
  | .command => "user command"
  | .other => "other"

theorem mem_all (sort : MessageSort) : sort ∈ all := by cases sort <;> decide

end MessageSort

/-! ## Decoding -/

namespace Message

def endMark : UInt8 := 0x00
def baselineKind : UInt8 := 0x01
def deltaKind : UInt8 := 0x02
def removeKind : UInt8 := 0x03
def tableKind : UInt8 := 0x04
def commandKind : UInt8 := 0x05

/-- Kinds from here on have their length in front. -/
def firstSkippedKind : UInt8 := 0x80

end Message

namespace Decoder

def propertyKey : Decoder PropertyKey := do
  let start ← offset
  let tag ← u8
  match tag with
  | 0 => PropertyKey.name <$> text
  | 1 => PropertyKey.slot <$> u16
  | _ => corrupt start (.unknownKeyTag tag)

/-- A truth value is a byte that is zero or one. -/
def boolean : Decoder Bool := do
  let start ← offset
  let byte ← u8
  match byte with
  | 0 => pure false
  | 1 => pure true
  | _ => corrupt start (.invalidBoolean byte)

def vec3 : Decoder Vec3 := do
  let x ← f32
  let y ← f32
  let z ← f32
  pure ⟨x, y, z⟩

/-- A value behind its tag. Integers and floats are stored in half the width that they have here. -/
def value : Decoder Value := do
  let start ← offset
  let tag ← u8
  match tag with
  | 0 => (fun i => Value.integer i.toInt64) <$> i32
  | 1 => (fun x => Value.float x.widen) <$> f32
  | 2 => Value.text <$> text
  | 3 => Value.boolean <$> boolean
  | 4 => Value.vector <$> vec3
  | _ => corrupt start (.unknownValueTag tag)

def assignment : Decoder Assignment := do
  let key ← propertyKey
  let value ← value
  pure ⟨key, value⟩

def tableEntry : Decoder TableEntry := do
  let index ← u16
  let text ← text
  pure ⟨index, text⟩

/-- So many items, behind their number. -/
def counted {α : Type} (item : Decoder α) : Decoder (List α) := do
  let count ← u16
  replicate item count.toNat

/-- The message whose kind, at the offset `start`, has just been read. -/
def message (start : Nat) (kind : UInt8) : Decoder Message :=
  if kind = Message.baselineKind then do
    let entity ← u32
    let cls ← text
    let properties ← counted assignment
    pure (.baseline entity cls properties)
  else if kind = Message.deltaKind then do
    let entity ← u32
    let properties ← counted assignment
    pure (.delta entity properties)
  else if kind = Message.removeKind then
    Message.remove <$> u32
  else if kind = Message.tableKind then do
    let name ← text
    let entries ← counted tableEntry
    pure (.table name entries)
  else if kind = Message.commandKind then do
    let sequence ← u32
    let size ← u16
    let input ← bytes size.toNat
    pure (.command sequence input)
  else if Message.firstSkippedKind ≤ kind then do
    let length ← u32
    skip length.toNat
    pure (.other kind length)
  else corrupt start (.unknownMessage kind)

/-- The messages up to the end mark, which takes one byte as each message takes more than one: so as many
rounds as there are bytes left suffice. -/
def messages : (rounds : Nat) → Decoder (List Message)
  | 0 => pure []
  | rounds + 1 => do
    let start ← offset
    let kind ← u8
    if kind = Message.endMark then pure []
    else
      let first ← message start kind
      let rest ← messages rounds
      pure (first :: rest)

end Decoder
end DemoTape
