/-
# Writing queries

The one spelling of a query: names behind a point where they can be, other names and texts in single quotes,
blanks only around the comparison.
-/
import DemoTape.Number.Layout
import DemoTape.Query

namespace DemoTape
set_option autoImplicit false

/-- The text in single quotes, with a backslash before each quote and backslash. -/
def quoteName (s : String) : String :=
  "'" ++ String.ofList (s.toList.flatMap fun c => if c = '\'' ∨ c = '\\' then ['\\', c] else [c]) ++ "'"

/-- The spelling of a literal; a vector has none. -/
def Value.literal : Value → String
  | .integer i => toString i.toInt
  | .float x => Layout.literal.write x
  | .text s => quoteName s
  | .boolean b => if b then "true" else "false"
  | .vector _ => ""

def Condition.render (c : Condition) : String :=
  "@" ++ String.join (c.path.map fun name => "." ++ name) ++ " " ++ c.comparison.symbol ++ " " ++ c.literal.literal

def Step.render : Step → String
  | .field name => if isIdentifier name then "." ++ name else "[" ++ quoteName name ++ "]"
  | .wildcard => "[*]"
  | .filter condition => "[?(" ++ condition.render ++ ")]"

def Query.render (q : Query) : String := "$" ++ String.join (q.steps.map Step.render)

end DemoTape
