/-
# One way to read a query

A tree is determined by what it spells (`Grammar.Tree.text_injective`). Where one part of a tree ends and the
next begins is settled by the reader: it takes the parts of two trees from the front of the same text, and so
takes the same (`sync`). `read_iff_derives` is the whole: a text is read as a query if and only if it derives
the query, and it has one tree at most.
-/
import DemoTape.Proofs.Query.Reading

namespace DemoTape
set_option autoImplicit false

open Query (Reader)
open Text (Stops stops_nil stops_cons)
open Query.Reader

/-- What a reader takes from the front of the same text is the same. -/
theorem Query.Reader.sync {α : Type} {r : Reader α} {text text' rest rest' : List Char} {a a' : α}
    (read : r (text ++ rest) = .ok (a, rest)) (read' : r (text' ++ rest') = .ok (a', rest'))
    (same : text ++ rest = text' ++ rest') : text = text' ∧ a = a' ∧ rest = rest' := by
  rw [same, read'] at read
  cases read
  exact ⟨List.append_cancel_right same, rfl, rfl⟩

namespace Grammar

/-! ## Names and texts -/

theorem Ident.text_injective {i j : Ident} (same : i.text = j.text) : i = j :=
  Ident.ext (List.cons.inj same).1 (List.cons.inj same).2

theorem pointed_injective {names others : List Ident} (same : pointed names = pointed others) :
    names = others := by
  induction names generalizing others with
  | nil =>
    cases others with
    | nil => rfl
    | cons j others => cases same
  | cons i names ih =>
    cases others with
    | nil => cases same
    | cons j others =>
      have stops (idents : List Ident) : Stops Name.isLater (pointed idents) := by
        simpa using stops_pointed (p := Name.isLater) (by decide) idents stops_nil
      obtain ⟨first, -, more⟩ := sync (fieldName_text i (stops names)) (fieldName_text j (stops others))
        (List.cons.inj same).2
      rw [Ident.text_injective first, ih more]

theorem Path.text_injective {p q : Path} (same : p.text = q.text) : p = q := by
  have pointed : pointed (p.first :: p.more) = pointed (q.first :: q.more) := same
  have both := List.cons.inj (pointed_injective pointed)
  exact Path.ext both.1 both.2

/-- Only a backslash begins two characters, and it does not stand alone. -/
theorem Piece.split {quote : Char} {p q : Piece} {rest rest' : List Char} (within : p.Within quote)
    (within' : q.Within quote) (same : p.text ++ rest = q.text ++ rest') : p = q ∧ rest = rest' := by
  cases p with
  | plain c =>
    cases q with
    | plain d =>
      cases same
      exact ⟨rfl, rfl⟩
    | escaped d => exact absurd (List.cons.inj same).1 within.2
  | escaped c =>
    cases q with
    | plain d => exact absurd (List.cons.inj same).1.symm within'.2
    | escaped d =>
      cases same
      exact ⟨rfl, rfl⟩

/-- No piece begins with the closing quote. -/
theorem Piece.not_quote {quote : Char} (plain : quote ≠ '\\') {p : Piece} {rest rest' : List Char}
    (within : p.Within quote) : p.text ++ rest ≠ quote :: rest' := by
  intro same
  cases p with
  | plain c => exact within.1 (List.cons.inj same).1
  | escaped c => exact plain (List.cons.inj same).1.symm

theorem pieces_injective {quote : Char} (plain : quote ≠ '\\') {pieces others : List Piece}
    (within : ∀ p ∈ pieces, p.Within quote) (within' : ∀ p ∈ others, p.Within quote)
    (same : pieces.flatMap Piece.text ++ [quote] = others.flatMap Piece.text ++ [quote]) : pieces = others := by
  induction pieces generalizing others with
  | nil =>
    cases others with
    | nil => rfl
    | cons q others =>
      rw [List.flatMap_cons, List.append_assoc] at same
      exact absurd same.symm (Piece.not_quote plain (within' q (List.mem_cons_self ..)))
  | cons p pieces ih =>
    obtain ⟨here, further⟩ := List.forall_mem_cons.mp within
    rw [List.flatMap_cons, List.append_assoc] at same
    cases others with
    | nil => exact absurd same (Piece.not_quote plain here)
    | cons q others =>
      obtain ⟨here', further'⟩ := List.forall_mem_cons.mp within'
      rw [List.flatMap_cons, List.append_assoc] at same
      obtain ⟨first, same⟩ := Piece.split here here' same
      rw [first, ih further further' same]

theorem Quoted.text_injective {q r : Quoted} (same : q.text = r.text) : q = r := by
  obtain ⟨quotes, bodies⟩ := List.cons.inj same
  have opens : q.quote ≠ '\\' := by
    rcases q.opens with here | here <;> rw [here] <;> decide
  refine Quoted.ext quotes (pieces_injective opens q.within ?_ ?_)
  · rw [quotes]
    exact r.within
  · rw [bodies, quotes]

/-! ## Literals -/

theorem Denotes.unique {numeral : List Char} {v w : Value} (first : Denotes numeral v)
    (second : Denotes numeral w) : v = w :=
  Option.some.inj ((numberValue?_eq_some.mpr first).symm.trans (numberValue?_eq_some.mpr second))

theorem Number.text_injective {m n : Number} (same : m.text = n.text) : m = n := by
  obtain ⟨first, later, _, _, value, denotes⟩ := m
  obtain ⟨_, _, _, _, _, denotes'⟩ := n
  cases same
  cases denotes.unique denotes'
  rfl

/-- Numerals denote numbers only. -/
theorem Number.value_ne (n : Number) {v : Value} (noFloat : v.kind ≠ .float) (noInteger : v.kind ≠ .integer) :
    n.value ≠ v := by
  rintro rfl
  obtain ⟨first, later, starts, goesOn, value, denotes⟩ := n
  cases denotes with
  | float => exact noFloat rfl
  | integer => exact noInteger rfl

theorem Literal.spelling_injective {k l : Literal} (same : k.spelling = l.spelling) : k = l := by
  have read (l : Literal) : literal (l.spelling ++ []) = .ok (l.value, []) := literal_text l stops_nil stops_nil
  -- literals of different kinds have different values, and so are not spelled the same
  have values : k.value = l.value := (sync (read k) (read l) (by rw [same])).2.1
  cases k with
  | text q =>
    cases l with
    | text r => rw [Quoted.text_injective same]
    | number n => exact absurd values.symm (n.value_ne nofun nofun)
    | boolean b => cases values
  | number m =>
    cases l with
    | text r => exact absurd values (m.value_ne nofun nofun)
    | number n => rw [Number.text_injective same]
    | boolean b => exact absurd values (m.value_ne nofun nofun)
  | boolean a =>
    cases l with
    | text r => cases values
    | number n => exact absurd values.symm (n.value_ne nofun nofun)
    | boolean b =>
      cases values
      rfl

/-! ## Steps -/

theorem Filter.text_injective {f g : Filter} (same : f.text = g.text) : f = g := by
  obtain ⟨beforeOpen, -, same⟩ := sync (blanks_before f.beforeOpen (by decide))
    (blanks_before g.beforeOpen (by decide)) same
  obtain ⟨beforeSubject, -, same⟩ := sync (blanks_before f.beforeSubject (by decide))
    (blanks_before g.beforeSubject (by decide)) (List.cons.inj same).2
  obtain ⟨path, -, same⟩ := sync (path_symbol _ _ _) (path_symbol _ _ _) (List.cons.inj same).2
  obtain ⟨beforeComparison, -, same⟩ := sync (blanks_symbol _ _) (blanks_symbol _ _) same
  obtain ⟨-, comparison, same⟩ := sync (comparison_literal _ _ _) (comparison_literal _ _ _) same
  obtain ⟨beforeLiteral, -, same⟩ := sync (blanks_literal _ _) (blanks_literal _ _) same
  obtain ⟨literal, -, same⟩ := sync (literal_close _ _) (literal_close _ _) same
  exact Filter.ext (Blanks.ext beforeOpen) (Blanks.ext beforeSubject) (Path.text_injective path)
    (Blanks.ext beforeComparison) comparison (Blanks.ext beforeLiteral) (Literal.spelling_injective literal)
    (Blanks.ext (List.append_cancel_right same))

theorem Inner.text_injective {i j : Inner} (same : i.text = j.text) : i = j := by
  have read (i : Inner) : bracketItem (i.text ++ []) = .ok (i.step, []) := bracketItem_text i
  have steps : i.step = j.step := (sync (read i) (read j) (by rw [same])).2.1
  cases i with
  | wildcard => cases j <;> cases steps; rfl
  | name q =>
    cases j with
    | name r => rw [Quoted.text_injective same]
    | wildcard | filter g => cases steps
  | filter f =>
    cases j with
    | filter g => rw [Filter.text_injective (List.cons.inj same).2]
    | wildcard | name r => cases steps

theorem Step.text_injective {s t : Step} (same : s.text = t.text) : s = t := by
  cases s with
  | name i =>
    cases t with
    | name j => rw [Ident.text_injective (List.cons.inj same).2]
    | bracket before inner after => cases (List.cons.inj same).1
  | bracket before inner after =>
    cases t with
    | name j => cases (List.cons.inj same).1
    | bracket before' inner' after' =>
      have stops (i : Inner) (rest : List Char) : Stops Text.isBlank (i.text ++ rest) := stops_inner i (by decide)
      obtain ⟨opens, -, same⟩ := sync (blanks_text before (stops inner _)) (blanks_text before' (stops inner' _))
        (List.cons.inj same).2
      obtain ⟨item, -, same⟩ := sync (bracketItem_text inner) (bracketItem_text inner') same
      rw [Blanks.ext opens, Inner.text_injective item, Blanks.ext (List.append_cancel_right same)]

theorem spaced_cons (before : Blanks) (s : Step) (steps : List (Blanks × Step)) (after : Blanks) :
    spaced ((before, s) :: steps) ++ after.text = before.text ++ (s.text ++ (spaced steps ++ after.text)) := by
  simp [spaced]

/-- A step is not blank, so the blanks behind the last step are no other than those. -/
theorem blanks_ne_step (after before : Blanks) (s : Step) (rest : List Char) :
    after.text ≠ before.text ++ (s.text ++ rest) := by
  intro same
  have stops : Stops Text.isBlank (s.text ++ rest) := stops_step s (by decide)
  obtain ⟨-, -, none⟩ := sync (blanks_text after stops_nil) (blanks_text before stops) (by simpa using same)
  cases s <;> cases none

theorem steps_injective {steps others : List (Blanks × Step)} {after after' : Blanks}
    (same : spaced steps ++ after.text = spaced others ++ after'.text) : steps = others ∧ after = after' := by
  induction steps generalizing others with
  | nil =>
    cases others with
    | nil => exact ⟨rfl, Blanks.ext same⟩
    | cons other others =>
      rw [spaced_cons] at same
      exact absurd same (blanks_ne_step _ _ _ _)
  | cons step steps ih =>
    rw [spaced_cons] at same
    cases others with
    | nil => exact absurd same.symm (blanks_ne_step _ _ _ _)
    | cons other others =>
      rw [spaced_cons] at same
      obtain ⟨before, -, same⟩ := sync (blanks_text step.1 (stops_step step.2 (by decide)))
        (blanks_text other.1 (stops_step other.2 (by decide))) same
      obtain ⟨first, -, same⟩ := sync (step?_text step.2 (stops_spaced steps after))
        (step?_text other.2 (stops_spaced others after')) same
      obtain ⟨rfl, rfl⟩ := ih same
      rw [Prod.ext (Blanks.ext before) (Step.text_injective first)]
      exact ⟨rfl, rfl⟩

theorem Tree.text_injective {t u : Tree} (same : t.text = u.text) : t = u := by
  obtain ⟨before, -, same⟩ := sync (blanks_before t.before (by decide)) (blanks_before u.before (by decide)) same
  obtain ⟨steps, after⟩ := steps_injective (List.cons.inj same).2
  exact Tree.ext (Blanks.ext before) steps after

end Grammar

namespace Query

/-- **A text is read as a query if and only if it derives the query in the grammar, and it has one parse tree at
most.** -/
theorem read_iff_derives :
    (∀ (source : String) (q : Query), read source = .ok q ↔ Grammar.Derives source.toList q) ∧
      ∀ t u : Grammar.Tree, t.text = u.text → t = u :=
  ⟨fun _ _ => ⟨derives_of_read, read_of_derives⟩, fun _ _ => Grammar.Tree.text_injective⟩

/-- Blanks may stand around a step, but not behind its point. -/
theorem read_iff_derives_blanks :
    Grammar.Derives " $ .a[ '\\'' ] ".toList ⟨[.field "a", .field "'"]⟩ ∧
      ∀ q : Query, ¬Grammar.Derives "$. a".toList q := by
  constructor
  · exact (read_iff_derives.1 _ _).mp (by decide +kernel)
  · intro q derives
    have given := (read_iff_derives.1 _ q).mpr derives
    have refused : (read "$. a").isOk = false := by decide +kernel
    rw [given] at refused
    cases refused

end Query
end DemoTape
