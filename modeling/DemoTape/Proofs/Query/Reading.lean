/-
# The reader accepts its grammar

Each reader takes exactly the texts of its nonterminal: what it took is the text of a tree (`…_ok`), and it
takes the text of every tree, provided that what follows does not go on with a character that a run would
take as well (`…_text`). The rounds of `morePath` and `steps` are bounded by the length of the text, so they
never run out. For whole queries this is `derives_of_read` and `read_of_derives`; that a text has one tree at
most stands in `DemoTape.Proofs.Query.Unambiguous`.
-/
import DemoTape.Proofs.Query.Grammar
import DemoTape.Query.Reader

namespace DemoTape
namespace Query
namespace Reader
set_option autoImplicit false

open Text (Stops stops_nil stops_cons)

/-! ## Sequences -/

section

variable {α β : Type} {text rest : List Char}

theorem bind_of_ok {r : Reader α} {k : α → Reader β} {a : α} (read : r text = .ok (a, rest)) :
    (r >>= k) text = k a rest := by
  simp [bind, StateT.bind, Except.bind, read]

theorem bind_eq_ok {r : Reader α} {k : α → Reader β} {b : β} :
    (r >>= k) text = .ok (b, rest) ↔ ∃ a mid, r text = .ok (a, mid) ∧ k a mid = .ok (b, rest) := by
  cases h : r text with
  | error stop => simp [bind, StateT.bind, Except.bind, h]
  | ok given =>
    obtain ⟨a, mid⟩ := given
    rw [bind_of_ok h]
    constructor
    · intro goesOn
      exact ⟨a, mid, rfl, goesOn⟩
    · rintro ⟨_, _, same, goesOn⟩
      cases same
      exact goesOn

theorem map_of_ok {r : Reader α} {f : α → β} {a : α} (read : r text = .ok (a, rest)) :
    (f <$> r) text = .ok (f a, rest) := by
  simp [Functor.map, StateT.map, Except.bind, bind, pure, Except.pure, read]

theorem map_eq_ok {r : Reader α} {f : α → β} {b : β} :
    (f <$> r) text = .ok (b, rest) ↔ ∃ a, r text = .ok (a, rest) ∧ f a = b := by
  cases h : r text with
  | error stop => simp [Functor.map, StateT.map, Except.bind, bind, h]
  | ok given =>
    obtain ⟨a, mid⟩ := given
    rw [map_of_ok h]
    constructor
    · intro given
      cases given
      exact ⟨a, rfl, rfl⟩
    · rintro ⟨_, same, rfl⟩
      cases same
      rfl

@[simp]
theorem pure_eq_ok {a b : α} : (pure a : Reader α) text = .ok (b, rest) ↔ a = b ∧ text = rest := by
  show Except.ok (a, text) = .ok (b, rest) ↔ _
  simp

theorem get_apply : (get : Reader (List Char)) text = .ok (text, text) := rfl

theorem get_eq_ok {mid : List Char} :
    (get : Reader (List Char)) text = .ok (mid, rest) ↔ text = mid ∧ text = rest := by
  simp [get_apply]

end

variable {text rest : List Char}

/-! ## Single characters -/

theorem expect_eq_ok {c : Char} {complaint : Complaint} {u : Unit} :
    expect c complaint text = .ok (u, rest) ↔ text = c :: rest := by
  cases text with
  | nil => simp [expect, stop]
  | cons first later =>
    simp only [expect]
    split
    · rename_i same
      simp [same]
    · rename_i other
      simp [stop, other]

theorem close_eq_ok {c : Char} {complaint : Complaint} {u : Unit} :
    close c complaint text = .ok (u, rest) ↔ text = c :: rest := by
  cases text with
  | nil => simp [close, stop]
  | cons first later =>
    show expect c complaint (first :: later) = _ ↔ _
    exact expect_eq_ok

theorem expect_text {c : Char} {complaint : Complaint} : expect c complaint (c :: rest) = .ok ((), rest) :=
  expect_eq_ok.mpr rfl

theorem close_text {c : Char} {complaint : Complaint} : close c complaint (c :: rest) = .ok ((), rest) :=
  close_eq_ok.mpr rfl

/-! ## Runs -/

theorem blanks_ok {u : Unit} (read : blanks text = .ok (u, rest)) :
    ∃ w : Grammar.Blanks, text = w.text ++ rest := by
  cases read
  exact ⟨⟨text.takeWhile Text.isBlank, List.all_eq_true.mp List.all_takeWhile⟩,
    List.takeWhile_append_dropWhile.symm⟩

theorem blanks_text (w : Grammar.Blanks) (stops : Stops Text.isBlank rest) :
    blanks (w.text ++ rest) = .ok ((), rest) := by
  show Except.ok ((), Text.dropBlanks _) = _
  rw [Text.dropBlanks, Text.dropWhile_of_stops w.blank stops]

/-- Blanks in front of another character. -/
theorem blanks_before (w : Grammar.Blanks) {c : Char} (other : Text.isBlank c = false) :
    blanks (w.text ++ c :: rest) = .ok ((), c :: rest) :=
  blanks_text w (stops_cons.mpr other)

theorem identifier?_some {name : String} (read : identifier? text = some (name, rest)) :
    ∃ i : Grammar.Ident, text = i.text ++ rest ∧ i.name = name := by
  cases text with
  | nil => cases read
  | cons first later =>
    rw [identifier?] at read
    split at read
    · rename_i starts
      cases read
      exact ⟨⟨first, later.takeWhile Name.isLater, starts, List.all_eq_true.mp List.all_takeWhile⟩,
        by simp [Grammar.Ident.text], rfl⟩
    · cases read

theorem identifier?_text (i : Grammar.Ident) (stops : Stops Name.isLater rest) :
    identifier? (i.text ++ rest) = some (i.name, rest) := by
  show identifier? (i.first :: (i.later ++ rest)) = _
  rw [identifier?, if_pos i.starts, Text.takeWhile_of_stops i.goesOn stops,
    Text.dropWhile_of_stops i.goesOn stops]
  rfl

theorem fieldName_ok {name : String} (read : fieldName text = .ok (name, rest)) :
    ∃ i : Grammar.Ident, text = i.text ++ rest ∧ i.name = name := by
  rw [fieldName] at read
  split at read
  · rename_i given taken
    cases read
    exact identifier?_some taken
  · cases read

theorem fieldName_text (i : Grammar.Ident) (stops : Stops Name.isLater rest) :
    fieldName (i.text ++ rest) = .ok (i.name, rest) := by
  rw [fieldName, identifier?_text i stops]

/-! ## Quoted texts -/

theorem isEscaped_iff {c : Char} : isEscaped c ↔ c = '\\' ∨ c = '\'' ∨ c = '"' := by
  simp [isEscaped, isQuote]

theorem isQuote_iff {c : Char} : isQuote c ↔ c = '\'' ∨ c = '"' := by
  simp [isQuote]

theorem except_map_eq_ok {α β : Type} {r : Except Stop α} {f : α → β} {b : β} :
    r.map f = .ok b ↔ ∃ a, r = .ok a ∧ f a = b := by
  cases r <;> simp [Except.map]

/-- A character is no backslash if it neither ends the text nor has another one behind it as a backslash. -/
theorem plain_of_neither {c : Char} {later : List Char} (ended : c = '\\' → later = [] → False)
    (goesOn : ∀ next rest, c = '\\' → later = next :: rest → False) : c ≠ '\\' := by
  intro same
  cases later with
  | nil => exact ended same rfl
  | cons next rest => exact goesOn next rest same rfl

/-- What is taken up to the closing quote is pieces. -/
theorem quotedBody_ok {quote : Char} {start body : List Char}
    (read : quotedBody quote start text = .ok (body, rest)) :
    ∃ pieces : List Grammar.Piece, (∀ p ∈ pieces, p.Within quote) ∧
      text = pieces.flatMap Grammar.Piece.text ++ quote :: rest ∧ pieces.map Grammar.Piece.content = body := by
  fun_induction quotedBody quote start text generalizing body with
  | case1 => cases read
  | case2 => cases read
  | case3 c later escapes ih =>
    obtain ⟨⟨body, mid⟩, taken, same⟩ := except_map_eq_ok.mp read
    cases same
    obtain ⟨pieces, within, rfl, rfl⟩ := ih taken
    exact ⟨.escaped c :: pieces, List.forall_mem_cons.mpr ⟨isEscaped_iff.mp escapes, within⟩, rfl, rfl⟩
  | case4 => cases read
  | case5 later =>
    cases read
    exact ⟨[], nofun, rfl, rfl⟩
  | case6 c later ended goesOn other ih =>
    obtain ⟨⟨body, mid⟩, taken, same⟩ := except_map_eq_ok.mp read
    cases same
    obtain ⟨pieces, within, spelled, rfl⟩ := ih taken
    -- behind a backslash one of the two cases above would have applied
    have plain := plain_of_neither ended goesOn
    refine ⟨.plain c :: pieces, List.forall_mem_cons.mpr ⟨⟨other, plain⟩, within⟩, ?_, rfl⟩
    rw [spelled]
    rfl

theorem quotedBody_text {quote : Char} (start : List Char) {pieces : List Grammar.Piece}
    (opens : quote = '\'' ∨ quote = '"') (within : ∀ p ∈ pieces, p.Within quote) :
    quotedBody quote start (pieces.flatMap Grammar.Piece.text ++ quote :: rest) =
      .ok (pieces.map Grammar.Piece.content, rest) := by
  induction pieces with
  | nil =>
    have plain : quote ≠ '\\' := by rintro rfl; revert opens; decide
    simp [quotedBody, plain]
  | cons piece pieces ih =>
    obtain ⟨here, further⟩ := List.forall_mem_cons.mp within
    have read := ih further
    cases piece with
    | plain c =>
      obtain ⟨other, plain⟩ := here
      simp [Grammar.Piece.text, Grammar.Piece.content, quotedBody, plain, other, read, Except.map]
    | escaped c =>
      simp [Grammar.Piece.text, Grammar.Piece.content, quotedBody, isEscaped_iff.mpr here, read, Except.map]

theorem quoted_ok {quote : Char} {content : String} (opens : isQuote quote)
    (read : quoted quote text = .ok (content, rest)) :
    ∃ q : Grammar.Quoted, quote :: text = q.text ++ rest ∧ q.content = content := by
  obtain ⟨⟨body, mid⟩, taken, same⟩ := except_map_eq_ok.mp read
  cases same
  obtain ⟨pieces, within, rfl, rfl⟩ := quotedBody_ok taken
  exact ⟨⟨quote, pieces, isQuote_iff.mp opens, within⟩, by simp [Grammar.Quoted.text], rfl⟩

theorem quoted_text (q : Grammar.Quoted) (rest : List Char) :
    quoted q.quote (q.pieces.flatMap Grammar.Piece.text ++ q.quote :: rest) = .ok (q.content, rest) := by
  rw [quoted, quotedBody_text _ q.opens q.within]
  rfl

/-! ## Literals -/

theorem isNumberStart_iff {c : Char} : isNumberStart c ↔ c.isDigit ∨ c = '+' ∨ c = '-' := by
  simp [isNumberStart, or_assoc]

theorem isNumberPart_iff {c : Char} :
    isNumberPart c ↔ c.isDigit ∨ c = '+' ∨ c = '-' ∨ c = '.' ∨ c = 'e' ∨ c = 'E' := by
  simp [isNumberPart, isNumberStart, or_assoc]

theorem isBlank_of_isNumberPart {c : Char} (part : isNumberPart c) : Text.isBlank c = false := by
  rcases isNumberPart_iff.mp part with digit | rfl | rfl | rfl | rfl | rfl
  · exact Grammar.isBlank_of_isDigit digit
  all_goals decide

theorem marked_iff {numeral : List Char} :
    (numeral.any fun c => c = '.' || c = 'e' || c = 'E') ↔ Grammar.Marked numeral := by
  simp [Grammar.Marked, or_assoc]

/-- A numeral is read as what it denotes. -/
theorem numberValue?_eq_some {numeral : List Char} {value : Value} :
    numberValue? numeral = some value ↔ Grammar.Denotes numeral value := by
  by_cases marked : Grammar.Marked numeral
  · rw [numberValue?, if_pos (marked_iff.mpr marked), Option.map_eq_some_iff]
    constructor
    · rintro ⟨x, read, rfl⟩
      rw [Binary.read?] at read
      split at read
      · cases read
      · rename_i negative d spelled
        dsimp only at read
        split at read
        · rename_i finite
          cases read
          exact .float marked spelled finite
        · cases read
    · intro denotes
      cases denotes with
      | float _ spelled finite =>
        refine ⟨_, ?_, rfl⟩
        simp [Binary.read?, spelled, finite]
      | integer unmarked => exact absurd marked unmarked
  · rw [numberValue?, if_neg (mt marked_iff.mp marked)]
    constructor
    · intro read
      obtain ⟨i, spelled, read⟩ := Option.bind_eq_some_iff.mp read
      split at read
      · rename_i fits
        cases read
        have back : (Int64.ofInt i).toInt = i :=
          Int64.toInt_ofInt_of_le fits.1 (by rw [Int64.toInt_maxValue] at fits; omega)
        exact .integer marked (by rw [spelled, back])
      · cases read
    · intro denotes
      cases denotes with
      | float marks => exact absurd marks marked
      | @integer i _ spelled =>
        have fits : Int64.minValue.toInt ≤ i.toInt ∧ i.toInt ≤ Int64.maxValue.toInt :=
          ⟨i.minValue_le_toInt, i.toInt_le⟩
        rw [spelled, Option.bind_eq_bind, Option.bind_some, if_pos fits, Int64.ofInt_toInt]

theorem number_ok {value : Value} {first : Char} {later : List Char} (starts : isNumberStart first)
    (read : number (first :: later) = .ok (value, rest)) :
    ∃ n : Grammar.Number, first :: later = n.text ++ rest ∧ n.value = value := by
  have part : isNumberPart first := by simp [isNumberPart, starts]
  rw [number, List.takeWhile_cons_of_pos part, List.dropWhile_cons_of_pos part] at read
  split at read
  · rename_i given denoted
    cases read
    refine ⟨⟨first, later.takeWhile isNumberPart, isNumberStart_iff.mp starts, fun c mem => ?_, _,
      numberValue?_eq_some.mp denoted⟩, ?_, rfl⟩
    · exact isNumberPart_iff.mp (List.all_eq_true.mp List.all_takeWhile c mem)
    · simp [Grammar.Number.text]
  · cases read

theorem number_text (n : Grammar.Number) (stops : Stops isNumberPart rest) :
    number (n.text ++ rest) = .ok (n.value, rest) := by
  have parts : ∀ c ∈ n.text, isNumberPart c := by
    refine List.forall_mem_cons.mpr ⟨?_, fun c mem => isNumberPart_iff.mpr (n.goesOn c mem)⟩
    simp [isNumberPart, isNumberStart_iff.mpr n.starts]
  have denoted : numberValue? n.text = some n.value := numberValue?_eq_some.mpr n.denotes
  rw [number, Text.takeWhile_of_stops parts stops, Text.dropWhile_of_stops parts stops, denoted]

theorem word_ok {value : Value} (read : word text = .ok (value, rest)) :
    ∃ b, text = (Grammar.Literal.boolean b).spelling ++ rest ∧ value = .boolean b := by
  rw [word] at read
  split at read
  · rename_i taken
    cases read
    obtain ⟨i, rfl, name⟩ := identifier?_some taken
    refine ⟨true, ?_, rfl⟩
    rw [← i.toList_name, name]
    rfl
  · rename_i taken
    cases read
    obtain ⟨i, rfl, name⟩ := identifier?_some taken
    refine ⟨false, ?_, rfl⟩
    rw [← i.toList_name, name]
    rfl
  · cases read

theorem word_text (b : Bool) (stops : Stops Name.isLater rest) :
    word ((Grammar.Literal.boolean b).spelling ++ rest) = .ok (.boolean b, rest) := by
  cases b with
  | true =>
    have taken : identifier? ((Grammar.Literal.boolean true).spelling ++ rest) = some ("true", rest) :=
      identifier?_text ⟨'t', ['r', 'u', 'e'], by decide, List.all_eq_true.mp (by decide)⟩ stops
    rw [word, taken]
    rfl
  | false =>
    have taken : identifier? ((Grammar.Literal.boolean false).spelling ++ rest) = some ("false", rest) :=
      identifier?_text ⟨'f', ['a', 'l', 's', 'e'], by decide, List.all_eq_true.mp (by decide)⟩ stops
    rw [word, taken]
    rfl

theorem literal_ok {value : Value} (read : literal text = .ok (value, rest)) :
    ∃ l : Grammar.Literal, text = l.spelling ++ rest ∧ l.value = value := by
  cases text with
  | nil => cases read
  | cons first later =>
    rw [literal] at read
    split at read
    · rename_i opens
      obtain ⟨content, taken, rfl⟩ := map_eq_ok.mp read
      obtain ⟨q, same, rfl⟩ := quoted_ok opens taken
      exact ⟨.text q, same, rfl⟩
    split at read
    · rename_i starts
      obtain ⟨n, same, rfl⟩ := number_ok starts read
      exact ⟨.number n, same, rfl⟩
    · obtain ⟨b, same, rfl⟩ := word_ok read
      exact ⟨.boolean b, same, rfl⟩

theorem literal_text (l : Grammar.Literal) (numeric : Stops isNumberPart rest) (later : Stops Name.isLater rest) :
    literal (l.spelling ++ rest) = .ok (l.value, rest) := by
  cases l with
  | text q =>
    have taken := quoted_text q rest
    simp [Grammar.Literal.spelling, Grammar.Quoted.text, literal, isQuote_iff.mpr q.opens, map_of_ok taken,
      Grammar.Literal.value]
  | number n =>
    have starts := isNumberStart_iff.mpr n.starts
    have noQuote : ¬isQuote n.first := by
      intro quotes
      rcases isQuote_iff.mp quotes with same | same <;> rw [same] at starts <;> revert starts <;> decide
    show literal (n.first :: (n.later ++ rest)) = _
    rw [literal, if_neg noQuote, if_pos starts]
    exact number_text n numeric
  | boolean b =>
    have taken := word_text b later
    cases b <;> exact taken

/-! ## Conditions -/

theorem comparison_ok {c : Comparison} (read : comparison text = .ok (c, rest)) :
    text = c.symbol.toList ++ rest := by
  unfold comparison at read
  split at read
  case h_7 => cases read
  all_goals
    cases read
    rfl

theorem comparison_text (c : Comparison) (stops : Stops (· = '=') rest) :
    comparison (c.symbol.toList ++ rest) = .ok (c, rest) := by
  cases c with
  | equal | notEqual | atMost | atLeast => rfl
  | less | greater =>
    cases rest with
    | nil => rfl
    | cons first later =>
      have other : first ≠ '=' := by simpa using stops
      simp [Comparison.symbol, comparison, other]

theorem morePath_ok {rounds : Nat} {names : List String} (read : morePath rounds text = .ok (names, rest)) :
    ∃ idents, text = Grammar.pointed idents ++ rest ∧ idents.map Grammar.Ident.name = names := by
  induction rounds generalizing text names with
  | zero =>
    cases read
    exact ⟨[], rfl, rfl⟩
  | succ rounds ih =>
    unfold morePath at read
    split at read
    · rename_i rounds later same
      cases same
      obtain ⟨name, mid, taken, read⟩ := bind_eq_ok.mp read
      obtain ⟨names, mid, further, given⟩ := bind_eq_ok.mp read
      obtain ⟨rfl, rfl⟩ := pure_eq_ok.mp given
      obtain ⟨i, rfl, rfl⟩ := fieldName_ok taken
      obtain ⟨idents, rfl, rfl⟩ := ih further
      exact ⟨i :: idents, by simp [Grammar.pointed], rfl⟩
    · cases read
      exact ⟨[], rfl, rfl⟩

theorem stops_pointed {p : Char → Bool} (point : p '.' = false) (idents : List Grammar.Ident)
    (stops : Stops p rest) : Stops p (Grammar.pointed idents ++ rest) := by
  cases idents with
  | nil => exact stops
  | cons i idents => exact stops_cons.mpr point

theorem morePath_text {idents : List Grammar.Ident} {rounds : Nat} (enough : idents.length ≤ rounds)
    (stops : Stops Name.isLater rest) (noPoint : Stops (· = '.') rest) :
    morePath rounds (Grammar.pointed idents ++ rest) = .ok (idents.map Grammar.Ident.name, rest) := by
  induction idents generalizing rounds with
  | nil =>
    show morePath rounds rest = .ok ([], rest)
    unfold morePath
    split
    · simp at noPoint
    · rfl
  | cons i idents ih =>
    cases rounds with
    | zero => cases enough
    | succ rounds =>
      have taken := fieldName_text i (stops_pointed (p := Name.isLater) (by decide) idents stops)
      have further := ih (Nat.le_of_succ_le_succ enough)
      show morePath (rounds + 1) ('.' :: (i.text ++ Grammar.pointed idents ++ rest)) = _
      rw [morePath, List.append_assoc, bind_of_ok taken, bind_of_ok further]
      rfl

theorem length_pointed (idents : List Grammar.Ident) : idents.length ≤ (Grammar.pointed idents).length := by
  induction idents with
  | nil => exact Nat.le_refl _
  | cons i idents ih =>
    simp [Grammar.pointed] at ih ⊢
    omega

theorem path_ok {names : List String} (read : path text = .ok (names, rest)) :
    ∃ p : Grammar.Path, text = p.text ++ rest ∧ p.names = names := by
  obtain ⟨_, mid, opened, read⟩ := bind_eq_ok.mp read
  obtain ⟨name, mid, taken, read⟩ := bind_eq_ok.mp read
  obtain ⟨_, mid, got, read⟩ := bind_eq_ok.mp read
  cases got
  obtain ⟨names, mid, further, given⟩ := bind_eq_ok.mp read
  obtain ⟨rfl, rfl⟩ := pure_eq_ok.mp given
  obtain ⟨first, rfl, rfl⟩ := fieldName_ok taken
  obtain ⟨more, rfl, rfl⟩ := morePath_ok further
  exact ⟨⟨first, more⟩, by simp [expect_eq_ok.mp opened, Grammar.Path.text], rfl⟩

theorem path_text (p : Grammar.Path) (stops : Stops Name.isLater rest) (noPoint : Stops (· = '.') rest) :
    path (p.text ++ rest) = .ok (p.names, rest) := by
  have opened : expect '.' .noFilterField (p.text ++ rest) =
      .ok ((), p.first.text ++ (Grammar.pointed p.more ++ rest)) :=
    expect_eq_ok.mpr (by simp [Grammar.Path.text])
  have taken := fieldName_text p.first (stops_pointed (p := Name.isLater) (by decide) p.more stops)
  have enough : p.more.length ≤ (Grammar.pointed p.more ++ rest).length := by
    have := length_pointed p.more
    rw [List.length_append]
    omega
  rw [path, bind_of_ok opened, bind_of_ok taken, bind_of_ok get_apply,
    bind_of_ok (morePath_text enough stops noPoint)]
  rfl

theorem condition_ok {c : Condition} (read : condition text = .ok (c, rest)) :
    ∃ f : Grammar.Filter, text = f.text ++ rest ∧ f.condition = c := by
  simp only [condition, bind_eq_ok, pure_eq_ok, expect_eq_ok, close_eq_ok] at read
  obtain ⟨_, _, spaceOpen, _, _, opened, _, _, spaceSubject, _, _, subject, _, _, named, _, _, spaceComparison,
    comparison, _, compared, _, _, spaceLiteral, _, _, valued, _, _, spaceClose, _, _, closed, rfl, rfl⟩ := read
  obtain ⟨beforeOpen, rfl⟩ := blanks_ok spaceOpen
  obtain ⟨beforeSubject, rfl⟩ := blanks_ok spaceSubject
  obtain ⟨path, rfl, rfl⟩ := path_ok named
  obtain ⟨beforeComparison, rfl⟩ := blanks_ok spaceComparison
  obtain ⟨beforeLiteral, rfl⟩ := blanks_ok spaceLiteral
  obtain ⟨literal, rfl, rfl⟩ := literal_ok valued
  obtain ⟨beforeClose, rfl⟩ := blanks_ok spaceClose
  refine ⟨⟨beforeOpen, beforeSubject, path, beforeComparison, comparison, beforeLiteral, literal, beforeClose⟩,
    ?_, rfl⟩
  simp [Grammar.Filter.text, opened, subject, comparison_ok compared, closed]

/-! What stands in a condition ends before what follows it there. -/

theorem blanks_symbol (w : Grammar.Blanks) (c : Comparison) :
    blanks (w.text ++ (c.symbol.toList ++ rest)) = .ok ((), c.symbol.toList ++ rest) :=
  blanks_text w (Grammar.stops_symbol c (by decide))

theorem path_symbol (p : Grammar.Path) (w : Grammar.Blanks) (c : Comparison) :
    path (p.text ++ (w.text ++ (c.symbol.toList ++ rest))) =
      .ok (p.names, w.text ++ (c.symbol.toList ++ rest)) :=
  path_text p (w.stops (fun _ => Grammar.isBlank_of_isLater) (Grammar.stops_symbol c (by decide)))
    (w.stops (by simp; decide) (Grammar.stops_symbol c (by decide)))

theorem blanks_literal (w : Grammar.Blanks) (l : Grammar.Literal) :
    blanks (w.text ++ (l.spelling ++ rest)) = .ok ((), l.spelling ++ rest) :=
  blanks_text w (Grammar.stops_literal l (by decide) (fun _ => Grammar.isBlank_of_isDigit))

theorem comparison_literal (c : Comparison) (w : Grammar.Blanks) (l : Grammar.Literal) :
    comparison (c.symbol.toList ++ (w.text ++ (l.spelling ++ rest))) =
      .ok (c, w.text ++ (l.spelling ++ rest)) := by
  refine comparison_text c (w.stops (by simp; decide) (Grammar.stops_literal l (by decide) ?_))
  intro first digit
  refine decide_eq_false ?_
  rintro rfl
  cases digit

theorem literal_close (l : Grammar.Literal) (w : Grammar.Blanks) :
    literal (l.spelling ++ (w.text ++ ')' :: rest)) = .ok (l.value, w.text ++ ')' :: rest) :=
  literal_text l (w.stops (fun _ => isBlank_of_isNumberPart) (stops_cons.mpr (by decide)))
    (w.stops (fun _ => Grammar.isBlank_of_isLater) (stops_cons.mpr (by decide)))

theorem condition_text (f : Grammar.Filter) : condition (f.text ++ rest) = .ok (f.condition, rest) := by
  have spelled : f.text ++ rest = f.beforeOpen.text ++ '(' :: (f.beforeSubject.text ++ '@' :: (f.path.text ++
      (f.beforeComparison.text ++ (f.comparison.symbol.toList ++ (f.beforeLiteral.text ++ (f.literal.spelling ++
        (f.beforeClose.text ++ ')' :: rest))))))) := by
    simp [Grammar.Filter.text]
  rw [spelled, condition, bind_of_ok (blanks_before _ (by decide)), bind_of_ok expect_text,
    bind_of_ok (blanks_before _ (by decide)), bind_of_ok expect_text, bind_of_ok (path_symbol _ _ _),
    bind_of_ok (blanks_symbol _ _), bind_of_ok (comparison_literal _ _ _), bind_of_ok (blanks_literal _ _),
    bind_of_ok (literal_close _ _), bind_of_ok (blanks_before _ (by decide)), bind_of_ok close_text]
  rfl

/-! ## Steps -/

theorem bracketItem_ok {step : Step} (read : bracketItem text = .ok (step, rest)) :
    ∃ i : Grammar.Inner, text = i.text ++ rest ∧ i.step = step := by
  unfold bracketItem at read
  split at read
  · cases read
  · cases read
    exact ⟨.wildcard, rfl, rfl⟩
  · obtain ⟨condition, taken, rfl⟩ := map_eq_ok.mp read
    obtain ⟨f, rfl, rfl⟩ := condition_ok taken
    exact ⟨.filter f, rfl, rfl⟩
  · split at read
    · rename_i opens
      obtain ⟨content, taken, rfl⟩ := map_eq_ok.mp read
      obtain ⟨q, same, rfl⟩ := quoted_ok opens taken
      exact ⟨.name q, same, rfl⟩
    · cases read

theorem bracketItem_text (i : Grammar.Inner) : bracketItem (i.text ++ rest) = .ok (i.step, rest) := by
  cases i with
  | wildcard => rfl
  | filter f => exact map_of_ok (condition_text f)
  | name q =>
    have taken := quoted_text q rest
    rcases q.opens with same | same <;>
      simp [Grammar.Inner.text, Grammar.Inner.step, Grammar.Quoted.text, bracketItem, isQuote, same] at taken ⊢ <;>
      exact map_of_ok taken

theorem bracket_ok {step : Step} (read : bracket text = .ok (step, rest)) :
    ∃ before inner after, '[' :: text = (Grammar.Step.bracket before inner after).text ++ rest ∧
      inner.step = step := by
  simp only [bracket, bind_eq_ok, pure_eq_ok, close_eq_ok] at read
  obtain ⟨_, _, spaceBefore, _, _, item, _, _, spaceAfter, _, _, closed, rfl, rfl⟩ := read
  obtain ⟨before, rfl⟩ := blanks_ok spaceBefore
  obtain ⟨inner, rfl, rfl⟩ := bracketItem_ok item
  obtain ⟨after, rfl⟩ := blanks_ok spaceAfter
  exact ⟨before, inner, after, by simp [Grammar.Step.text, closed], rfl⟩

theorem bracket_text (before : Grammar.Blanks) (inner : Grammar.Inner) (after : Grammar.Blanks)
    (rest : List Char) :
    bracket (before.text ++ (inner.text ++ (after.text ++ ']' :: rest))) = .ok (inner.step, rest) := by
  rw [bracket, bind_of_ok (blanks_text before (Grammar.stops_inner inner (by decide))),
    bind_of_ok (bracketItem_text inner), bind_of_ok (blanks_before after (by decide)), bind_of_ok close_text]
  rfl

/-- A step is read, or else the text is at its end. -/
theorem step?_ok {step : Option Step} (read : step? text = .ok (step, rest)) :
    (text = [] ∧ rest = [] ∧ step = none) ∨
      ∃ s : Grammar.Step, text = s.text ++ rest ∧ step = some s.step := by
  unfold step? at read
  split at read
  · cases read
    exact .inl ⟨rfl, rfl, rfl⟩
  · obtain ⟨_, field, rfl⟩ := map_eq_ok.mp read
    obtain ⟨_, taken, rfl⟩ := map_eq_ok.mp field
    obtain ⟨i, rfl, rfl⟩ := fieldName_ok taken
    exact .inr ⟨.name i, rfl, rfl⟩
  · obtain ⟨_, taken, rfl⟩ := map_eq_ok.mp read
    obtain ⟨before, inner, after, same, rfl⟩ := bracket_ok taken
    exact .inr ⟨_, same, rfl⟩
  · cases read

theorem step?_text (s : Grammar.Step) (stops : Stops Name.isLater rest) :
    step? (s.text ++ rest) = .ok (some s.step, rest) := by
  cases s with
  | name i => exact map_of_ok (map_of_ok (fieldName_text i stops))
  | bracket before inner after =>
    have taken := map_of_ok (f := some) (bracket_text before inner after rest)
    simpa [Grammar.Step.text, Grammar.Step.step, step?] using taken

theorem steps_ok {rounds : Nat} {found : List Step} (read : steps rounds text = .ok (found, rest)) :
    ∃ (parts : List (Grammar.Blanks × Grammar.Step)) (after : Grammar.Blanks),
      text = Grammar.spaced parts ++ after.text ∧ rest = [] ∧ parts.map (fun s => s.2.step) = found := by
  induction rounds generalizing text found with
  | zero => cases read
  | succ rounds ih =>
    obtain ⟨_, _, blanks, read⟩ := bind_eq_ok.mp read
    obtain ⟨next, _, taken, read⟩ := bind_eq_ok.mp read
    obtain ⟨before, rfl⟩ := blanks_ok blanks
    rcases step?_ok taken with ⟨rfl, rfl, rfl⟩ | ⟨s, rfl, rfl⟩
    · cases read
      exact ⟨[], before, by simp [Grammar.spaced], rfl, rfl⟩
    · obtain ⟨following, _, further, given⟩ := bind_eq_ok.mp read
      obtain ⟨rfl, rfl⟩ := pure_eq_ok.mp given
      obtain ⟨parts, after, rfl, rfl, rfl⟩ := ih further
      exact ⟨(before, s) :: parts, after, by simp [Grammar.spaced], rfl, rfl⟩

theorem steps_text {parts : List (Grammar.Blanks × Grammar.Step)} (after : Grammar.Blanks) {rounds : Nat}
    (enough : parts.length < rounds) :
    steps rounds (Grammar.spaced parts ++ after.text) = .ok (parts.map fun s => s.2.step, []) := by
  induction parts generalizing rounds with
  | nil =>
    cases rounds with
    | zero => cases enough
    | succ rounds =>
      have taken := blanks_text after stops_nil
      rw [List.append_nil] at taken
      show steps (rounds + 1) after.text = _
      rw [steps, bind_of_ok taken, bind_of_ok (show step? [] = .ok (none, []) from rfl)]
      rfl
  | cons part parts ih =>
    obtain ⟨before, s⟩ := part
    cases rounds with
    | zero => cases enough
    | succ rounds =>
      have further := ih (Nat.lt_of_succ_lt_succ enough)
      have taken := step?_text s (Grammar.stops_spaced parts after)
      have spelled : Grammar.spaced ((before, s) :: parts) ++ after.text =
          before.text ++ (s.text ++ (Grammar.spaced parts ++ after.text)) := by simp [Grammar.spaced]
      rw [spelled, steps, bind_of_ok (blanks_text before (Grammar.stops_step s (by decide))), bind_of_ok taken]
      dsimp only
      rw [bind_of_ok further]
      rfl

/-! ## Queries -/

theorem query_ok {q : Query} (read : query text = .ok (q, rest)) : Grammar.Derives text q := by
  simp only [query, bind_eq_ok, pure_eq_ok, expect_eq_ok, get_eq_ok] at read
  obtain ⟨_, _, blanks, _, _, root, _, _, ⟨rfl, rfl⟩, found, _, further, rfl, rfl⟩ := read
  obtain ⟨before, rfl⟩ := blanks_ok blanks
  obtain ⟨parts, after, rfl, rfl, rfl⟩ := steps_ok further
  exact ⟨⟨before, parts, after⟩, by simp [Grammar.Tree.text, root], rfl⟩

theorem query_text (t : Grammar.Tree) : query t.text = .ok (t.query, []) := by
  have enough : t.steps.length < (Grammar.spaced t.steps ++ t.after.text).length + 1 := by
    have := Grammar.length_spaced t.steps
    rw [List.length_append]
    omega
  rw [query, Grammar.Tree.text, bind_of_ok (blanks_before t.before (by decide)), bind_of_ok expect_text,
     bind_of_ok get_apply, bind_of_ok (steps_text t.after enough)]
  rfl

end Reader

theorem derives_of_read {source : String} {q : Query} (given : read source = .ok q) :
    Grammar.Derives source.toList q := by
  rw [read] at given
  split at given
  · rename_i taken
    cases given
    exact Reader.query_ok taken
  · cases given

/-- What derives a query is read as this query. -/
theorem read_of_derives {source : String} {q : Query} (derives : Grammar.Derives source.toList q) :
    read source = .ok q := by
  obtain ⟨t, spelled, rfl⟩ := derives
  rw [read, ← spelled, Reader.query_text]

example : read "$ .a [*][?(@.b.x <= -2)]" =
    .ok ⟨[.field "a", .wildcard, .filter ⟨["b", "x"], .atMost, .integer (-2)⟩]⟩ := by decide +kernel

end Query
end DemoTape
