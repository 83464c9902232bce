/-
# Property values

A property of an entity holds an integer, a float, a text, a truth value or a vector. `Value.compare` orders
what can be ordered: two texts by their characters, two truth values with false first, two integers, and any
other two numbers as floats. `Value.same` is the equality of numbers, not of spellings: the zeros are equal
and NaN is equal to nothing.
-/
import DemoTape.Number.Binary

namespace DemoTape
set_option autoImplicit false

structure Vec3 where
  x : Binary32
  y : Binary32
  z : Binary32
  deriving DecidableEq, Repr

namespace Vec3

/-- The names of the components, in their order. -/
def axes : List String := ["x", "y", "z"]

def component? (v : Vec3) (name : String) : Option Binary32 :=
  if name = "x" then some v.x
  else if name = "y" then some v.y
  else if name = "z" then some v.z
  else none

def same (v w : Vec3) : Bool := v.x.same w.x && v.y.same w.y && v.z.same w.z

end Vec3

/-- What a value is, without its content. -/
inductive Kind where
  | integer
  | float
  | text
  | boolean
  | vector
  deriving DecidableEq, Repr

def Kind.name : Kind → String
  | .integer => "integer"
  | .float => "float"
  | .text => "string"
  | .boolean => "boolean"
  | .vector => "vector"

inductive Value where
  | integer (i : Int64)
  | float (x : Binary64)
  | text (s : String)
  | boolean (b : Bool)
  | vector (v : Vec3)
  deriving DecidableEq, Repr

namespace Value

def kind : Value → Kind
  | .integer _ => .integer
  | .float _ => .float
  | .text _ => .text
  | .boolean _ => .boolean
  | .vector _ => .vector

def text? : Value → Option String
  | .text s => some s
  | _ => none

/-- A number as a float; an integer goes to the nearest one. -/
def number? : Value → Option Binary64
  | .integer i => some (Binary.ofInt .double i.toInt)
  | .float x => some x
  | _ => none

/-- The order of two values, if they have one. -/
def compare : Value → Value → Option Ordering
  | .integer i, .integer j => some (Ord.compare i j)
  | .text s, .text t => some (Ord.compare s t)
  | .boolean b, .boolean c => some (Ord.compare b c)
  | a, b => do (← a.number?).compare (← b.number?)

def same : Value → Value → Bool
  | .integer i, .integer j => i = j
  | .float x, .float y => x.same y
  | .text s, .text t => s = t
  | .boolean b, .boolean c => b = c
  | .vector v, .vector w => v.same w
  | _, _ => false

end Value
end DemoTape
