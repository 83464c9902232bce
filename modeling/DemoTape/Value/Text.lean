/-
# Values as text

`Value.display` is the readable form, `Value.json` the JSON document of a value.
-/
import DemoTape.Value
import DemoTape.Number.Layout
import DemoTape.Text.Json

namespace DemoTape
set_option autoImplicit false

def Vec3.json (v : Vec3) : Json :=
  let component (x : Binary32) : Json := .number (Layout.jsonSingle.write x)
  .object [("x", component v.x), ("y", component v.y), ("z", component v.z)]

namespace Value

def display : Value → String
  | .integer i => toString i.toInt
  | .float x => Layout.plain.write x
  | .text s => s
  | .boolean b => if b then "true" else "false"
  | .vector v =>
    "(" ++ Layout.plain.write v.x ++ ", " ++ Layout.plain.write v.y ++ ", " ++ Layout.plain.write v.z ++ ")"

def json : Value → Json
  | .integer i => .number (toString i.toInt)
  | .float x => .number (Layout.jsonDouble.write x)
  | .text s => .text s
  | .boolean b => .bool b
  | .vector v => v.json

end Value
end DemoTape
