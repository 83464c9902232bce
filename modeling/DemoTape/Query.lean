/-
# Queries

A query walks from the root of a snapshot down in steps: into a named member, to all the elements, or to
those that meet a condition. A condition compares what a path of names leads to with a literal.
-/
import DemoTape.Value

namespace DemoTape
set_option autoImplicit false

inductive Comparison where
  | equal
  | notEqual
  | less
  | atMost
  | greater
  | atLeast
  deriving DecidableEq, Repr

namespace Comparison

def symbol : Comparison → String
  | .equal => "=="
  | .notEqual => "!="
  | .less => "<"
  | .atMost => "<="
  | .greater => ">"
  | .atLeast => ">="

/-- Whether only equality is tested. -/
def isEquality : Comparison → Bool
  | .equal => true
  | .notEqual => true
  | _ => false

/-- Whether an order of the left side to the right side is admitted. -/
def admits : Comparison → Ordering → Bool
  | .equal, order => order = .eq
  | .notEqual, order => order ≠ .eq
  | .less, order => order = .lt
  | .atMost, order => order ≠ .gt
  | .greater, order => order = .gt
  | .atLeast, order => order ≠ .lt

/-- Whether a value stands in this relation to a literal. Truth values are tested for equality only. -/
def holds (comparison : Comparison) (value literal : Value) : Bool :=
  (value.kind ≠ .boolean || comparison.isEquality) && (value.compare literal).any comparison.admits

end Comparison

structure Condition where
  /-- The names that lead to the tested value, at least one. -/
  path : List String
  comparison : Comparison
  literal : Value
  deriving DecidableEq, Repr

inductive Step where
  | field (name : String)
  | wildcard
  | filter (condition : Condition)
  deriving DecidableEq, Repr

structure Query where
  steps : List Step
  deriving DecidableEq, Repr

/-- Whether a query has no step and so selects the whole snapshot. -/
def Query.isRoot (q : Query) : Bool := q.steps.isEmpty

/-! ## Names -/

namespace Name

def isFirst (c : Char) : Bool := c.isAlpha || c = '_'
def isLater (c : Char) : Bool := c.isAlphanum || c = '_'

end Name

/-- Whether a name is a letter or underscore and then letters, digits and underscores, all ASCII; only such a
name can be written behind a point. -/
def isIdentifier (name : String) : Bool :=
  match name.toList with
  | [] => false
  | first :: later => Name.isFirst first && later.all Name.isLater

end DemoTape
