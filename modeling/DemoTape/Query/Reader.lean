/-
# Reading queries

A query text is read from left to right and never taken back: the first character of a step, of an item in
brackets or of a literal tells what it must be. So the first thing that is wrong is what the reader complains
of. A `Stop` is that complaint, with the text from the place it is about and the text from the place where
the reader stood; the second differs from the first only for a quoted text without an end.

Blanks may stand before and after the whole, between the steps and between the parts in brackets, but not
within a path.
-/
import DemoTape.Number.Decimal
import DemoTape.Query
import DemoTape.Fault
import DemoTape.Text.Blank

namespace DemoTape
namespace Query
set_option autoImplicit false

-- sums begin with the zero of the core library, whatever else is loaded
attribute [local instance (high)] Zero.ofOfNat0

structure Stop where
  complaint : Complaint
  /-- The text from the place that the complaint is about. -/
  place : List Char
  /-- The text from the place where the reader stood. -/
  stood : List Char
  deriving DecidableEq, Repr

/-- A computation that reads from the front of a text. -/
abbrev Reader := StateT (List Char) (Except Stop)

namespace Reader

/-- Complains of the place where the reader stands. -/
def stop {α : Type} (complaint : Complaint) : Reader α := fun text => .error ⟨complaint, text, text⟩

def blanks : Reader Unit := modify Text.dropBlanks

/-- Takes one given character. -/
def expect (c : Char) (complaint : Complaint) : Reader Unit
  | [] => stop complaint []
  | first :: rest => if first = c then .ok ((), rest) else stop complaint (first :: rest)

/-- Takes a closing character; the end of the text leaves the bracket open. -/
def close (c : Char) (complaint : Complaint) : Reader Unit
  | [] => stop .openBracket []
  | text => expect c complaint text

/-! ## Names and texts -/

def identifier? : List Char → Option (String × List Char)
  | [] => none
  | first :: rest =>
    if Name.isFirst first then
      some (String.ofList (first :: rest.takeWhile Name.isLater), rest.dropWhile Name.isLater)
    else none

def fieldName : Reader String := fun text =>
  match identifier? text with
  | some name => .ok name
  | none => stop .noFieldName text

def isQuote (c : Char) : Bool := c = '\'' || c = '"'

/-- What a backslash may stand before. -/
def isEscaped (c : Char) : Bool := c = '\\' || isQuote c

/-- The characters up to the closing quote; `start` is the text from the opening quote on. -/
def quotedBody (quote : Char) (start : List Char) : List Char → Except Stop (List Char × List Char)
  | [] => .error ⟨.openText, start, []⟩
  | '\\' :: [] => stop .badEscape []
  | '\\' :: c :: rest =>
    if isEscaped c then (quotedBody quote start rest).map fun (body, rest) => (c :: body, rest)
    else stop .badEscape (c :: rest)
  | c :: rest =>
    if c = quote then .ok ([], rest)
    else (quotedBody quote start rest).map fun (body, rest) => (c :: body, rest)

/-- The text in quotes whose opening quote has just been taken. -/
def quoted (quote : Char) : Reader String := fun rest =>
  (quotedBody quote (quote :: rest) rest).map fun (body, rest) => (String.ofList body, rest)

/-! ## Literals -/

def isNumberStart (c : Char) : Bool := c.isDigit || c = '+' || c = '-'
def isNumberPart (c : Char) : Bool := isNumberStart c || c = '.' || c = 'e' || c = 'E'

/-- A numeral with a point or an exponent is a float, which must be finite; any other is an integer, which
must fit in 64 bits. -/
def numberValue? (numeral : List Char) : Option Value :=
  if numeral.any fun c => c = '.' || c = 'e' || c = 'E' then
    (Binary.read? .double numeral).map .float
  else do
    let i ← readInt? numeral
    if Int64.minValue.toInt ≤ i ∧ i ≤ Int64.maxValue.toInt then some (.integer (Int64.ofInt i)) else none

def number : Reader Value := fun text =>
  match numberValue? (text.takeWhile isNumberPart) with
  | some value => .ok (value, text.dropWhile isNumberPart)
  | none => stop .badNumber text

/-- A truth value. -/
def word : Reader Value := fun text =>
  match identifier? text with
  | some ("true", rest) => .ok (.boolean true, rest)
  | some ("false", rest) => .ok (.boolean false, rest)
  | _ => stop .noLiteral text

def literal : Reader Value
  | [] => stop .noLiteral []
  | first :: rest =>
    if isQuote first then (.text <$> quoted first) rest
    else if isNumberStart first then number (first :: rest)
    else word (first :: rest)

/-! ## Conditions -/

def comparison : Reader Comparison
  | '=' :: '=' :: rest => .ok (.equal, rest)
  | '!' :: '=' :: rest => .ok (.notEqual, rest)
  | '<' :: '=' :: rest => .ok (.atMost, rest)
  | '>' :: '=' :: rest => .ok (.atLeast, rest)
  | '<' :: rest => .ok (.less, rest)
  | '>' :: rest => .ok (.greater, rest)
  | text => stop .noOperator text

/-- The names behind further points. Each takes two characters at least, so as many rounds as there are
characters suffice. -/
def morePath : (rounds : Nat) → Reader (List String)
  | rounds + 1, '.' :: rest => (do
      let name ← fieldName
      let names ← morePath rounds
      pure (name :: names) : Reader (List String)) rest
  | _, text => .ok ([], text)

def path : Reader (List String) := do
  expect '.' .noFilterField
  let name ← fieldName
  let names ← morePath (← get).length
  pure (name :: names)

/-- A condition in its parentheses. -/
def condition : Reader Condition := do
  blanks
  expect '(' .noFilterParenthesis
  blanks
  expect '@' .noFilterSubject
  let path ← path
  blanks
  let comparison ← comparison
  blanks
  let literal ← literal
  blanks
  close ')' .noClosingParenthesis
  pure { path, comparison, literal }

/-! ## Steps -/

/-- What stands in brackets. -/
def bracketItem : Reader Step
  | [] => stop .openBracket []
  | '*' :: rest => .ok (.wildcard, rest)
  | '?' :: rest => (.filter <$> condition) rest
  | first :: rest =>
    if isQuote first then (.field <$> quoted first) rest
    else stop .noBracketContent (first :: rest)

/-- A step whose opening bracket has just been taken. -/
def bracket : Reader Step := do
  blanks
  let step ← bracketItem
  blanks
  close ']' .noClosingBracket
  pure step

/-- The next step, or none at the end of the text. -/
def step? : Reader (Option Step)
  | [] => .ok (none, [])
  | '.' :: rest => (some <$> .field <$> fieldName) rest
  | '[' :: rest => (some <$> bracket) rest
  | text => stop .unexpected text

/-- The steps up to the end of the text. Each takes two characters at least, so as many rounds as there are
characters and one for the end suffice. -/
def steps : (rounds : Nat) → Reader (List Step)
  | 0 => stop .unexpected
  | rounds + 1 => do
    blanks
    match ← step? with
    | none => pure []
    | some step => do
      let following ← steps rounds
      pure (step :: following)

def query : Reader Query := do
  blanks
  expect '$' .noRoot
  let steps ← steps ((← get).length + 1)
  pure { steps }

end Reader

/-! ## Queries -/

/-- How many bytes the text takes. -/
def byteLength (text : List Char) : Nat := (text.map Char.utf8Size).sum

/-- The complaint as a fault of the whole text. It tells the byte where it applies and the character that was
met, blanks aside. -/
def Stop.fault (s : Stop) (text : List Char) : Fault :=
  .query (byteLength text - byteLength s.place) s.complaint (Text.dropBlanks s.stood).head?

def read (source : String) : Except Fault Query :=
  match Reader.query source.toList with
  | .ok (query, _) => .ok query
  | .error stop => .error (stop.fault source.toList)

end Query
end DemoTape
