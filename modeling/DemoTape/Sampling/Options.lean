/-
# Sampling options

What to sample and how often, as a JSON document: an object with the fields `json_path` and `tick_freq`, or an
array with the two values in this order. What is missing has its default, fields of other names are passed
over, and a field that is there twice makes the document wrong.
-/
import DemoTape.Number.Decimal
import DemoTape.Sampling
import DemoTape.Text.Json.Reader

namespace DemoTape
set_option autoImplicit false

-- powers are those of the core library, whatever else is loaded
attribute [local instance (high)] instPowNat

structure SamplingOptions where
  path : String := "$"
  ticks : UInt32 := 1
  deriving DecidableEq, Repr

namespace SamplingOptions

def pathField : String := "json_path"
def ticksField : String := "tick_freq"

def path? : JsonSource → Option String
  | .quoted body => (JsonSource.said? body).map String.ofList
  | _ => none

def ticks? : JsonSource → Option UInt32
  | .number numeral => do
    let n ← readWhole? numeral
    if n < 2 ^ (32 : Nat) then some (UInt32.ofNat n) else none
  | _ => none

/-- The field of a name, if there is one; there must not be two. -/
def unique? (name : String) (fields : List (String × JsonSource)) : Option (Option JsonSource) :=
  match fields.filter (·.1 = name) with
  | [] => some none
  | [field] => some (some field.2)
  | _ => none

def ofFields? (fields : List (String × JsonSource)) : Option SamplingOptions := do
  let path ← (← unique? pathField fields).mapM path?
  let ticks ← (← unique? ticksField fields).mapM ticks?
  let defaults : SamplingOptions := {}
  some { path := path.getD defaults.path, ticks := ticks.getD defaults.ticks }

def ofItems? : List JsonSource → Option SamplingOptions
  | [] => some {}
  | [path] => do some { path := ← path? path }
  | [path, ticks] => do some { path := ← path? path, ticks := ← ticks? ticks }
  | _ => none

def ofJson? (text : String) : Option SamplingOptions := do
  match ← JsonSource.read? text with
  | .object fields => do
    let fields ← fields.mapM fun field => do some (String.ofList (← JsonSource.said? field.1), field.2)
    ofFields? fields
  | .array items => ofItems? items
  | _ => none

def json (o : SamplingOptions) : Json := .object [
  (pathField, .text o.path),
  (ticksField, .nat o.ticks.toNat)]

/-- A sampler with these options. -/
def sampler (o : SamplingOptions) (data : Bytes) : Except Fault Sampler := Sampler.ofBytes data o.path o.ticks

end SamplingOptions
end DemoTape
