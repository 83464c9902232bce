/-
# Queries are read as they are written

A query is well formed when its conditions have paths of identifiers, at least one, and literals that have a
spelling. Only such queries are read, since a parse tree holds no others (`Grammar.Tree.wellFormed`). And each
of them is: what is written for it is the text of a parse tree of it (`exists_tree`), so reading gives the query
back, floats to the bit. `read_render` is the two together.
-/
import DemoTape.Proofs.Number.Numeral
import DemoTape.Proofs.Query.Reading
import DemoTape.Query.Printer

namespace DemoTape
set_option autoImplicit false

/-! ## Well-formed queries -/

/-- Whether a literal has a spelling. -/
def Value.Spellable : Value → Prop
  | .integer _ => True
  | .float x => x.isFinite
  | .text _ => True
  | .boolean _ => True
  | .vector _ => False

structure Condition.WellFormed (c : Condition) : Prop where
  nonempty : c.path ≠ []
  identifiers : ∀ name ∈ c.path, isIdentifier name
  spellable : c.literal.Spellable

def Step.WellFormed : Step → Prop
  | .field _ => True
  | .wildcard => True
  | .filter c => c.WellFormed

def Query.WellFormed (q : Query) : Prop := ∀ s ∈ q.steps, s.WellFormed

namespace Grammar

/-! ## What is derived is well formed -/

theorem Ident.isIdentifier (i : Ident) : isIdentifier i.name := by
  simp only [DemoTape.isIdentifier, toList_name, text, Bool.and_eq_true, List.all_eq_true]
  exact ⟨i.starts, i.goesOn⟩

theorem Denotes.spellable {numeral : List Char} {v : Value} (denotes : Denotes numeral v) : v.Spellable := by
  cases denotes with
  | float _ _ finite => exact finite
  | integer => exact trivial

theorem Literal.spellable (l : Literal) : l.value.Spellable := by
  cases l with
  | text q => exact trivial
  | number n => exact n.denotes.spellable
  | boolean b => exact trivial

theorem Filter.wellFormed (f : Filter) : f.condition.WellFormed where
  nonempty := nofun
  identifiers := by
    intro name mem
    rcases List.mem_cons.mp mem with rfl | mem
    · exact f.path.first.isIdentifier
    · obtain ⟨i, -, rfl⟩ := List.mem_map.mp mem
      exact i.isIdentifier
  spellable := f.literal.spellable

theorem Step.wellFormed (s : Step) : s.step.WellFormed := by
  cases s with
  | name i => exact trivial
  | bracket before inner after =>
    cases inner with
    | wildcard => exact trivial
    | name q => exact trivial
    | filter f => exact f.wellFormed

theorem Tree.wellFormed (t : Tree) : t.query.WellFormed := by
  intro s mem
  obtain ⟨part, -, rfl⟩ := List.mem_map.mp mem
  exact part.2.wellFormed

/-! ## What is written is derived -/

theorem exists_ident {name : String} (given : DemoTape.isIdentifier name) :
    ∃ i : Ident, i.text = name.toList ∧ i.name = name := by
  rw [DemoTape.isIdentifier] at given
  cases spelled : name.toList with
  | nil => rw [spelled] at given; cases given
  | cons first later =>
    rw [spelled] at given
    obtain ⟨starts, goesOn⟩ := Bool.and_eq_true_iff.mp given
    refine ⟨⟨first, later, starts, List.all_eq_true.mp goesOn⟩, rfl, ?_⟩
    rw [Ident.name, Ident.text, ← spelled, String.ofList_toList]

/-- A character as it stands in single quotes. -/
def Piece.ofChar (c : Char) : Piece := if c = '\'' ∨ c = '\\' then .escaped c else .plain c

theorem Piece.text_ofChar (c : Char) : (ofChar c).text = if c = '\'' ∨ c = '\\' then ['\\', c] else [c] := by
  unfold ofChar
  split <;> rfl

theorem Piece.content_ofChar (c : Char) : (ofChar c).content = c := by
  unfold ofChar
  split <;> rfl

theorem Piece.within_ofChar (c : Char) : (ofChar c).Within '\'' := by
  unfold ofChar
  split
  · rename_i special
    rcases special with quote | backslash
    · exact .inr (.inl quote)
    · exact .inl backslash
  · rename_i plain
    exact not_or.mp plain

theorem exists_quoted (s : String) : ∃ q : Quoted, q.text = (quoteName s).toList ∧ q.content = s := by
  refine ⟨⟨'\'', s.toList.map Piece.ofChar, .inl rfl, ?_⟩, ?_, ?_⟩
  · intro p mem
    obtain ⟨c, -, rfl⟩ := List.mem_map.mp mem
    exact Piece.within_ofChar c
  · simp [Quoted.text, quoteName, List.flatMap_map, Piece.text_ofChar]
  · simp [Quoted.content, Piece.content_ofChar, Function.comp_def]

theorem exists_number {text : List Char} {v : Value} (denotes : Denotes text v)
    (starts : ∃ first later, text = first :: later ∧ (first.isDigit ∨ first = '-'))
    (chars : ∀ c ∈ text, c.isDigit ∨ c = '-' ∨ c = '.' ∨ c = 'e') :
    ∃ n : Number, n.text = text ∧ n.value = v := by
  obtain ⟨first, later, rfl, starts⟩ := starts
  refine ⟨⟨first, later, ?_, ?_, v, denotes⟩, rfl, rfl⟩
  · rcases starts with digit | minus
    · exact .inl digit
    · exact .inr (.inr minus)
  · intro c mem
    rcases chars c (List.mem_cons_of_mem first mem) with digit | same | same | same <;> simp [*]

theorem exists_integer (i : Int64) : ∃ n : Number, n.text = (toString i.toInt).toList ∧ n.value = .integer i := by
  rw [toList_toString_int]
  refine exists_number (.integer ?_ (readInt?_signed i.toInt)) (Numeral.signed_cons i.toInt) ?_
  · rintro ⟨c, mem, mark⟩
    rcases Numeral.mem_signed mem with digit | rfl
    · rcases mark with rfl | rfl | rfl <;> cases digit
    · revert mark
      decide
  · intro c mem
    rcases Numeral.mem_signed mem with digit | minus
    · exact .inl digit
    · exact .inr (.inl minus)

theorem exists_float {x : Binary64} (finite : x.isFinite) :
    ∃ n : Number, n.text = (Layout.literal.write x).toList ∧ n.value = .float x := by
  obtain ⟨n, spelled, marked, same⟩ := Layout.exists_write finite
  rw [← spelled]
  subst same
  refine exists_number (.float ?_ n.read?_text finite) n.text_cons (fun c mem => Numeral.mem_text mem)
  rcases marked.mem_text with point | mark
  · exact ⟨'.', point, .inl rfl⟩
  · exact ⟨'e', mark, .inr (.inl rfl)⟩

theorem exists_literal {v : Value} (spellable : v.Spellable) :
    ∃ l : Literal, l.spelling = v.literal.toList ∧ l.value = v := by
  cases v with
  | integer i =>
    obtain ⟨n, spelled, value⟩ := exists_integer i
    exact ⟨.number n, spelled, value⟩
  | float x =>
    obtain ⟨n, spelled, value⟩ := exists_float spellable
    exact ⟨.number n, spelled, value⟩
  | text s =>
    obtain ⟨q, spelled, content⟩ := exists_quoted s
    exact ⟨.text q, spelled, congrArg Value.text content⟩
  | boolean b =>
    refine ⟨.boolean b, ?_, rfl⟩
    cases b <;> rfl
  | vector v => cases spellable

def Blanks.space : Blanks := ⟨[' '], List.all_eq_true.mp (by decide)⟩

/-- The names of a path, each behind its point. -/
theorem exists_pointed {names : List String} (identifiers : ∀ name ∈ names, DemoTape.isIdentifier name) :
    ∃ idents, pointed idents = (String.join (names.map fun name => "." ++ name)).toList ∧
      idents.map Ident.name = names := by
  induction names with
  | nil => exact ⟨[], rfl, rfl⟩
  | cons name names ih =>
    obtain ⟨here, further⟩ := List.forall_mem_cons.mp identifiers
    obtain ⟨i, first, rfl⟩ := exists_ident here
    obtain ⟨idents, spelled, rfl⟩ := ih further
    refine ⟨i :: idents, ?_, rfl⟩
    simp [pointed] at spelled ⊢
    exact spelled

theorem exists_filter {c : Condition} (wellFormed : c.WellFormed) :
    ∃ f : Filter, f.text = ("(" ++ c.render ++ ")").toList ∧ f.condition = c := by
  obtain ⟨path, comparison, literal⟩ := c
  obtain ⟨nonempty, identifiers, spellable⟩ := wellFormed
  obtain ⟨idents, named, rfl⟩ := exists_pointed identifiers
  obtain ⟨l, spelled, rfl⟩ := exists_literal spellable
  cases idents with
  | nil => exact absurd rfl nonempty
  | cons first more =>
    refine ⟨⟨.none, .none, ⟨first, more⟩, .space, comparison, .space, l, .none⟩, ?_, rfl⟩
    have path : Path.text ⟨first, more⟩ = pointed (first :: more) := rfl
    simp only [Filter.text, Condition.render, path, named, spelled, Blanks.none, Blanks.space,
      String.toList_append, List.append_assoc, List.nil_append]
    rfl

theorem exists_step {s : DemoTape.Step} (wellFormed : s.WellFormed) :
    ∃ t : Step, t.text = s.render.toList ∧ t.step = s := by
  cases s with
  | wildcard => exact ⟨.bracket .none .wildcard .none, rfl, rfl⟩
  | field name =>
    by_cases ident : DemoTape.isIdentifier name
    · obtain ⟨i, spelled, same⟩ := exists_ident ident
      refine ⟨.name i, ?_, congrArg DemoTape.Step.field same⟩
      simp [Step.text, DemoTape.Step.render, ident, spelled]
    · obtain ⟨q, spelled, same⟩ := exists_quoted name
      refine ⟨.bracket .none (.name q) .none, ?_, congrArg DemoTape.Step.field same⟩
      simp [Step.text, Inner.text, Blanks.none, DemoTape.Step.render, ident, spelled]
  | filter c =>
    obtain ⟨f, spelled, rfl⟩ := exists_filter wellFormed
    refine ⟨.bracket .none (.filter f) .none, ?_, rfl⟩
    simp [Step.text, Inner.text, Blanks.none, DemoTape.Step.render, spelled]

theorem exists_spaced {steps : List DemoTape.Step} (wellFormed : ∀ s ∈ steps, s.WellFormed) :
    ∃ parts, spaced parts = (String.join (steps.map DemoTape.Step.render)).toList ∧
      parts.map (fun part => part.2.step) = steps := by
  induction steps with
  | nil => exact ⟨[], rfl, rfl⟩
  | cons s steps ih =>
    obtain ⟨here, further⟩ := List.forall_mem_cons.mp wellFormed
    obtain ⟨t, first, rfl⟩ := exists_step here
    obtain ⟨parts, spelled, rfl⟩ := ih further
    refine ⟨(.none, t) :: parts, ?_, rfl⟩
    simp [spaced, Blanks.none, first] at spelled ⊢
    exact spelled

/-- What is written for a well-formed query is the text of a parse tree of it. -/
theorem exists_tree {q : Query} (wellFormed : q.WellFormed) : Derives q.render.toList q := by
  obtain ⟨steps⟩ := q
  obtain ⟨parts, spelled, rfl⟩ := exists_spaced wellFormed
  refine ⟨⟨.none, parts, .none⟩, ?_, rfl⟩
  simp [Tree.text, Query.render, Blanks.none, spelled]

end Grammar

namespace Query

/-- **Only well-formed queries are read, and each of them is read from what is written for it.** -/
theorem read_render : (∀ (source : String) (q : Query), read source = .ok q → q.WellFormed) ∧
    ∀ q : Query, q.WellFormed → read q.render = .ok q := by
  constructor
  · intro source q given
    obtain ⟨t, -, rfl⟩ := derives_of_read given
    exact t.wellFormed
  · intro q wellFormed
    exact read_of_derives (Grammar.exists_tree wellFormed)

/-- A name with both quotes and a backslash, and a negative zero. -/
def crooked : Query :=
  ⟨[.field "it's \"\\", .filter ⟨["a"], .less, .float (Binary.ofWord .double 0x8000000000000000)⟩]⟩

theorem read_render_crooked :
    crooked.WellFormed ∧ crooked.render = "$['it\\'s \"\\\\'][?(@.a < -0.0)]" ∧
      read crooked.render = .ok crooked := by
  have written : crooked.render = "$['it\\'s \"\\\\'][?(@.a < -0.0)]" := by decide +kernel
  have found : read "$['it\\'s \"\\\\'][?(@.a < -0.0)]" = .ok crooked := by decide +kernel
  have wellFormed : crooked.WellFormed := read_render.1 _ _ found
  exact ⟨wellFormed, written, read_render.2 crooked wellFormed⟩

end Query
end DemoTape
