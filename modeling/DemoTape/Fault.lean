/-
# Faults

Everything that can go wrong with a recording or a request for it, as a cause; `Fault.message` has the
wording. `Fault.category` groups the causes: what is no recording at all, a recording of an unknown protocol,
a byte stream that cannot be followed any further, a property that changes its kind, a query that cannot be
read and a sampling period that makes no sense.
-/
import DemoTape.Bytes
import DemoTape.Query.Complaint
import DemoTape.Text.Hex
import DemoTape.Text.Utf8
import DemoTape.Value

namespace DemoTape
set_option autoImplicit false

/-- Why a recording cannot be followed past a place. -/
inductive Corruption where
  | shortHeader (expected found : Nat)
  | missingStop
  | unknownCommand (command : UInt8)
  | tickNotAfter (tick last : UInt32)
  | unknownMessage (kind : UInt8)
  | unknownKeyTag (tag : UInt8)
  | unknownValueTag (tag : UInt8)
  | invalidBoolean (byte : UInt8)
  | invalidText (flaw : Utf8.Flaw)
  | untrackedEntity (entity : UInt32)
  | unnamedProperty (index : UInt16) (table : String)
  deriving DecidableEq, Repr

inductive Fault where
  | signature (expected found : Bytes)
  | protocol (found lowest highest : UInt32)
  | endOfData (offset expected available : Nat)
  | corrupt (offset : Nat) (cause : Corruption)
  | kindChange (cls property : String) (expected found : Kind)
  | query (position : Nat) (complaint : Complaint) (found : Option Char)
  | period (ticks : UInt32)
  deriving DecidableEq, Repr

inductive Fault.Category where
  | format
  | protocol
  | corruptData
  | kindChange
  | query
  | argument
  deriving DecidableEq, Repr

def Fault.category : Fault → Fault.Category
  | .signature _ _ => .format
  | .protocol _ _ _ => .protocol
  | .endOfData _ _ _ => .corruptData
  | .corrupt _ _ => .corruptData
  | .kindChange _ _ _ _ => .kindChange
  | .query _ _ _ => .query
  | .period _ => .argument

/-! ## Wording -/

def Corruption.message : Corruption → String
  | .shortHeader expected found => s!"truncated header: expected {expected} bytes, found {found}"
  | .missingStop => "demo ended without a stop command"
  | .unknownCommand command => "unknown frame command 0x" ++ Text.hexUpper command
  | .tickNotAfter tick last => s!"tick {tick} does not follow tick {last}"
  | .unknownMessage kind => "unknown message kind 0x" ++ Text.hexUpper kind ++ " without length prefix"
  | .unknownKeyTag tag => "unknown property key tag 0x" ++ Text.hexUpper tag
  | .unknownValueTag tag => "unknown value tag 0x" ++ Text.hexUpper tag
  | .invalidBoolean byte => "invalid boolean byte 0x" ++ Text.hexUpper byte
  | .invalidText flaw => "invalid UTF-8 string: " ++ flaw.message
  | .untrackedEntity entity => s!"delta for unknown entity {entity}"
  | .unnamedProperty index table => s!"property name index {index} not in {table}"

/-- The first eight bytes, and how many there are if there are more. -/
def Fault.excerpt (bytes : Bytes) : String :=
  let shown := " ".intercalate ((bytes.take 8).map Text.hexUpper)
  if bytes.length ≤ 8 then shown else shown ++ s!"... ({bytes.length} bytes total)"

def Fault.message : Fault → String
  | .signature expected found =>
    "Invalid magic bytes: expected " ++ excerpt expected ++ ", found " ++ excerpt found
  | .protocol found lowest highest =>
    s!"Unsupported demo protocol {found}: supported range is {lowest}..={highest}"
  | .endOfData offset expected available =>
    s!"Unexpected end of data at offset {offset}: expected {expected} bytes, but only {available} available"
  | .corrupt offset cause => s!"Corrupt data at offset {offset}: " ++ cause.message
  | .kindChange cls property expected found =>
    s!"Property {cls}.{property} changed type from {expected.name} to {found.name}"
  | .query position complaint found =>
    let stop := match found with
      | some c => "found '" ++ c.toString ++ "'"
      | none => "found end of query"
    s!"Query syntax error at position {position}: " ++ complaint.message ++ ", " ++ stop
  | .period ticks => s!"Invalid tick frequency {ticks}: must be at least 1"

/-! ## Results -/

instance decidableEqExcept {ε α : Type} [DecidableEq ε] [DecidableEq α] : DecidableEq (Except ε α)
  | .ok a, .ok b => decidable_of_iff (a = b) ⟨congrArg _, Except.ok.inj⟩
  | .error e, .error f => decidable_of_iff (e = f) ⟨congrArg _, Except.error.inj⟩
  | .ok _, .error _ => .isFalse nofun
  | .error _, .ok _ => .isFalse nofun

end DemoTape
