/-
# The grammar of queries

    query   = ws* '$' (ws* step)* ws*
    step    = '.' ident | '[' ws* inner ws* ']'
    inner   = '*' | quoted | '?' ws* '(' ws* '@' ('.' ident)+ ws* op ws* literal ws* ')'
    literal = quoted | number | true | false

Each nonterminal is a type of parse trees, which carry what makes them one: a run of blanks holds nothing but
blanks, a quoted text no bare quote, a number a numeral that denotes its value. `text` is what a tree spells
and `Tree.query` what it stands for; nothing here reads a text. Two trees that spell the same are the same
(`Tree.text_injective` in `DemoTape.Proofs.Query.Unambiguous`).
-/
import DemoTape.Number.Decimal
import DemoTape.Proofs.Text.Runs
import DemoTape.Query
import DemoTape.Text.Blank

namespace DemoTape
namespace Grammar
set_option autoImplicit false

open Text (Stops stops_nil stops_cons)

/-! ## Blanks and names -/

/-- `ws*`. -/
@[ext]
structure Blanks where
  text : List Char
  blank : ∀ c ∈ text, Text.isBlank c

def Blanks.none : Blanks := ⟨[], nofun⟩

@[ext]
structure Ident where
  first : Char
  later : List Char
  starts : Name.isFirst first
  goesOn : ∀ c ∈ later, Name.isLater c

namespace Ident

def text (i : Ident) : List Char := i.first :: i.later
def name (i : Ident) : String := String.ofList i.text

@[simp]
theorem toList_name (i : Ident) : i.name.toList = i.text := String.toList_ofList

end Ident

/-- `('.' ident)+`. -/
@[ext]
structure Path where
  first : Ident
  more : List Ident

/-- Names, each behind a point. -/
def pointed (names : List Ident) : List Char := names.flatMap fun i => '.' :: i.text

namespace Path

def text (p : Path) : List Char := '.' :: (p.first.text ++ pointed p.more)
def names (p : Path) : List String := p.first.name :: p.more.map Ident.name

end Path

/-! ## Quoted texts -/

/-- A character of a quoted text, with or without a backslash in front. -/
inductive Piece where
  | plain (c : Char)
  | escaped (c : Char)

namespace Piece

def text : Piece → List Char
  | .plain c => [c]
  | .escaped c => ['\\', c]

def content : Piece → Char
  | .plain c => c
  | .escaped c => c

/-- Whether this may stand between two such quotes. -/
def Within (quote : Char) : Piece → Prop
  | .plain c => c ≠ quote ∧ c ≠ '\\'
  | .escaped c => c = '\\' ∨ c = '\'' ∨ c = '"'

end Piece

@[ext]
structure Quoted where
  quote : Char
  pieces : List Piece
  opens : quote = '\'' ∨ quote = '"'
  within : ∀ p ∈ pieces, p.Within quote

namespace Quoted

def text (q : Quoted) : List Char := q.quote :: (q.pieces.flatMap Piece.text ++ [q.quote])
def content (q : Quoted) : String := String.ofList (q.pieces.map Piece.content)

end Quoted

/-! ## Literals -/

/-- Whether a numeral spells a float. -/
def Marked (numeral : List Char) : Prop := ∃ c ∈ numeral, c = '.' ∨ c = 'e' ∨ c = 'E'

/-- What a numeral stands for: with a mark the finite float nearest to its decimal, without one an integer of
64 bits. -/
inductive Denotes (numeral : List Char) : Value → Prop where
  | float {negative : Bool} {d : Decimal} (marked : Marked numeral)
      (spelled : Decimal.read? numeral = some (negative, d))
      (finite : (Binary.ofDecimal .double negative d).isFinite) :
      Denotes numeral (.float (Binary.ofDecimal .double negative d))
  | integer {i : Int64} (unmarked : ¬Marked numeral) (spelled : readInt? numeral = some i.toInt) :
      Denotes numeral (.integer i)

structure Number where
  first : Char
  later : List Char
  starts : first.isDigit ∨ first = '+' ∨ first = '-'
  goesOn : ∀ c ∈ later, c.isDigit ∨ c = '+' ∨ c = '-' ∨ c = '.' ∨ c = 'e' ∨ c = 'E'
  value : Value
  denotes : Denotes (first :: later) value

def Number.text (n : Number) : List Char := n.first :: n.later

inductive Literal where
  | text (q : Quoted)
  | number (n : Number)
  | boolean (b : Bool)

namespace Literal

def spelling : Literal → List Char
  | .text q => q.text
  | .number n => n.text
  | .boolean true => ['t', 'r', 'u', 'e']
  | .boolean false => ['f', 'a', 'l', 's', 'e']

def value : Literal → Value
  | .text q => .text q.content
  | .number n => n.value
  | .boolean b => .boolean b

end Literal

/-! ## Steps -/

/-- What stands behind the question mark. -/
@[ext]
structure Filter where
  beforeOpen : Blanks
  beforeSubject : Blanks
  path : Path
  beforeComparison : Blanks
  comparison : Comparison
  beforeLiteral : Blanks
  literal : Literal
  beforeClose : Blanks

namespace Filter

def text (f : Filter) : List Char :=
  f.beforeOpen.text ++ '(' :: (f.beforeSubject.text ++ '@' :: (f.path.text ++ (f.beforeComparison.text ++
    (f.comparison.symbol.toList ++ (f.beforeLiteral.text ++ (f.literal.spelling ++
      (f.beforeClose.text ++ [')'])))))))

def condition (f : Filter) : Condition := ⟨f.path.names, f.comparison, f.literal.value⟩

end Filter

inductive Inner where
  | wildcard
  | name (q : Quoted)
  | filter (f : Filter)

namespace Inner

def text : Inner → List Char
  | .wildcard => ['*']
  | .name q => q.text
  | .filter f => '?' :: f.text

def step : Inner → DemoTape.Step
  | .wildcard => .wildcard
  | .name q => .field q.content
  | .filter f => .filter f.condition

end Inner

inductive Step where
  | name (i : Ident)
  | bracket (before : Blanks) (inner : Inner) (after : Blanks)

namespace Step

def text : Step → List Char
  | .name i => '.' :: i.text
  | .bracket before inner after => '[' :: (before.text ++ (inner.text ++ (after.text ++ [']'])))

def step : Step → DemoTape.Step
  | .name i => .field i.name
  | .bracket _ inner _ => inner.step

end Step

/-! ## Queries -/

/-- Steps, each behind blanks. -/
def spaced (steps : List (Blanks × Step)) : List Char := steps.flatMap fun s => s.1.text ++ s.2.text

@[ext]
structure Tree where
  before : Blanks
  steps : List (Blanks × Step)
  after : Blanks

namespace Tree

def text (t : Tree) : List Char := t.before.text ++ '$' :: (spaced t.steps ++ t.after.text)
def query (t : Tree) : Query := ⟨t.steps.map fun s => s.2.step⟩

end Tree

/-- Whether a text derives a query. -/
def Derives (text : List Char) (q : Query) : Prop := ∃ t : Tree, t.text = text ∧ t.query = q

/-! ## What follows -/

/-- No blank is a printable ASCII character. -/
theorem isBlank_of_printable {c : Char} (low : 0x21 ≤ c.toNat) (high : c.toNat ≤ 0x7E) :
    Text.isBlank c = false := by
  simp [Text.isBlank, Text.blankRanges]
  omega

theorem isBlank_of_isDigit {c : Char} (digit : c.isDigit) : Text.isBlank c = false := by
  have range : 0x30 ≤ c.toNat ∧ c.toNat ≤ 0x39 := by
    simpa [Char.isDigit, UInt32.le_iff_toNat_le] using digit
  exact isBlank_of_printable (by omega) (by omega)

theorem isBlank_of_isLater {c : Char} (later : Name.isLater c) : Text.isBlank c = false := by
  have range : 0x30 ≤ c.toNat ∧ c.toNat ≤ 0x7A := by
    have classes : Name.isLater c = (decide (c.val ≥ 'A'.val ∧ c.val ≤ 'Z'.val) ||
        (decide (c.val ≥ 'a'.val) && decide (c.val ≤ 'z'.val)) ||
        (decide (c.val ≥ '0'.val) && decide (c.val ≤ '9'.val)) || c = '_') := rfl
    simp [classes, UInt32.le_iff_toNat_le] at later
    rcases later with ((later | later) | later) | rfl
    · omega
    · omega
    · omega
    · decide
  exact isBlank_of_printable (by omega) (by omega)

/-- Blanks in front of what a run does not go on with do not let it go on either. -/
theorem Blanks.stops {p : Char → Bool} {rest : List Char} (w : Blanks)
    (dark : ∀ c, p c → Text.isBlank c = false) (stops : Stops p rest) : Stops p (w.text ++ rest) := by
  cases here : w.text with
  | nil => exact stops
  | cons c later =>
    have blank : Text.isBlank c := w.blank c (by simp [here])
    refine stops_cons.mpr (Bool.eq_false_iff.mpr fun goesOn => ?_)
    rw [dark c goesOn] at blank
    cases blank

theorem stops_symbol {p : Char → Bool} {rest : List Char} (c : Comparison)
    (free : ['=', '!', '<', '>'].any p = false) : Stops p (c.symbol.toList ++ rest) := by
  simp only [List.any_cons, List.any_nil, Bool.or_eq_false_iff] at free
  cases c <;> simp [Comparison.symbol, free]

theorem stops_literal {p : Char → Bool} {rest : List Char} (l : Literal)
    (free : ['\'', '"', '+', '-', 't', 'f'].any p = false)
    (digitFree : ∀ first : Char, first.isDigit → p first = false) : Stops p (l.spelling ++ rest) := by
  simp only [List.any_cons, List.any_nil, Bool.or_eq_false_iff] at free
  cases l with
  | text q => rcases q.opens with same | same <;> simp [Literal.spelling, Quoted.text, same, free]
  | number n =>
    rcases n.starts with digit | same | same
    · exact stops_cons.mpr (digitFree _ digit)
    all_goals simp [Literal.spelling, Number.text, same, free]
  | boolean b => cases b <;> simp [Literal.spelling, free]

theorem stops_inner {p : Char → Bool} {rest : List Char} (i : Inner)
    (free : ['*', '?', '\'', '"'].any p = false) : Stops p (i.text ++ rest) := by
  simp only [List.any_cons, List.any_nil, Bool.or_eq_false_iff] at free
  cases i with
  | wildcard | filter => simp [Inner.text, free]
  | name q => rcases q.opens with same | same <;> simp [Inner.text, Quoted.text, same, free]

theorem stops_step {p : Char → Bool} {rest : List Char} (s : Step) (free : ['.', '['].any p = false) :
    Stops p (s.text ++ rest) := by
  simp only [List.any_cons, List.any_nil, Bool.or_eq_false_iff] at free
  cases s <;> simp [Step.text, free]

/-- No name goes on into what follows a step. -/
theorem stops_spaced (steps : List (Blanks × Step)) (after : Blanks) :
    Stops Name.isLater (spaced steps ++ after.text) := by
  cases steps with
  | nil =>
    have ends := after.stops (p := Name.isLater) (fun _ => isBlank_of_isLater) stops_nil
    rwa [List.append_nil] at ends
  | cons step steps =>
    have spelled : spaced (step :: steps) ++ after.text =
        step.1.text ++ (step.2.text ++ (spaced steps ++ after.text)) := by simp [spaced]
    rw [spelled]
    exact step.1.stops (fun _ => isBlank_of_isLater) (stops_step step.2 (by decide))

theorem Step.length_text_pos (s : Step) : 0 < s.text.length := by cases s <;> simp [Step.text]

theorem length_spaced (steps : List (Blanks × Step)) : steps.length ≤ (spaced steps).length := by
  induction steps with
  | nil => exact Nat.le_refl _
  | cons step steps ih =>
    have positive := step.2.length_text_pos
    simp [spaced] at ih ⊢
    omega

end Grammar
end DemoTape
