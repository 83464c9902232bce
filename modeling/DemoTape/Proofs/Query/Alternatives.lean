/-
# Reading by alternatives

The grammar of queries read the plain way, with alternatives that are tried in turn. The reader in
`DemoTape.Query.Reader` looks at one character instead and knows what must follow. Both take the same queries
(`compile_eq_ok`) and report the same of every other text (`compile_eq_error`). Of a trail without any complaint no more
could be said than that the query is invalid (`Failure.report`), but there is no such trail.

The proof goes along the grammar (`Attempt.same_query`). At each choice there is one alternative at most that goes past
its first character, and by then this one has committed itself, while the others decline.
-/
import DemoTape.Proofs.Query.Attempt

namespace DemoTape
namespace Query
set_option autoImplicit false

namespace Attempt

/-! ## The grammar -/

def blanks : Attempt Unit := modify Text.dropBlanks

def identifier : Attempt String := do
  let first ← one Name.isFirst
  let later ← run Name.isLater
  pure (String.ofList (first :: later))

def fieldName : Attempt String := context .noFieldName identifier

def close (c : Char) (complaint : Complaint) : Attempt Unit := fun text =>
  context (if text.isEmpty then .openBracket else complaint) (char c) text

def piece (quote : Char) : Attempt Char := alternatives [
  (do char '\\'; context .badEscape (commit (one Reader.isEscaped))),
  one fun c => c ≠ quote ∧ c ≠ '\\']

def quotedBody (quote : Char) : Attempt (List Char) := manyThen (piece quote) (char quote)

def quoted : Attempt String := do
  let quote ← peek (one Reader.isQuote)
  context .openText (commit (String.ofList <$> (do char quote; quotedBody quote)))

def numeral : Attempt (List Char) := do
  let first ← one Reader.isNumberStart
  let later ← run Reader.isNumberPart
  pure (first :: later)

def number : Attempt Value := do
  let _ ← peek (one Reader.isNumberStart)
  context .badNumber (commit (keep Reader.numberValue? numeral))

def truthValue? : String → Option Value
  | "true" => some (.boolean true)
  | "false" => some (.boolean false)
  | _ => none

def truth : Attempt Value := keep truthValue? identifier

def literal : Attempt Value := context .noLiteral (alternatives [.text <$> quoted, number, truth])

/-- The longer ones come first, as a shorter one is in front of a longer one. -/
def comparisons : List Comparison := [.equal, .notEqual, .atMost, .atLeast, .less, .greater]

def compared (c : Comparison) : Attempt Comparison := (fun _ => c) <$> exactly c.symbol.toList

def comparison : Attempt Comparison := context .noOperator (alternatives (comparisons.map compared))

def condition : Attempt Condition := do
  blanks
  context .noFilterParenthesis (char '(')
  blanks
  context .noFilterSubject (char '@')
  let path ← context .noFilterField (many1 (behind '.' fieldName))
  blanks
  let comparison ← comparison
  blanks
  let literal ← literal
  blanks
  close ')' .noClosingParenthesis
  pure { path, comparison, literal }

def bracketItem : Attempt Step := do
  let _ ← context .openBracket (peek (one fun _ => true))
  context .noBracketContent (alternatives [(fun _ => .wildcard) <$> char '*', .field <$> quoted,
    .filter <$> behind '?' condition])

def bracket : Attempt Step := do
  blanks
  let step ← bracketItem
  blanks
  close ']' .noClosingBracket
  pure step

def step : Attempt Step := alternatives [.field <$> behind '.' fieldName, behind '[' bracket]

def steps : Attempt (List Step) := manyThen (do blanks; step) (do blanks; context .unexpected ended)

def query : Attempt Query := do
  blanks
  context .noRoot (char '$')
  let steps ← steps
  pure { steps }

/-! ## Names and blanks -/

variable {text rest : List Char}

theorem same_blanks (text : List Char) : Same (blanks text) (Reader.blanks text) := .ok _

theorem identifier_apply (text : List Char) :
    identifier text = (Reader.identifier? text).elim (fail text) Except.ok := by
  cases text with
  | nil => rfl
  | cons first rest =>
    rw [identifier, bind_apply, one, Reader.identifier?]
    cases Name.isFirst first <;> rfl

theorem same_fieldName (text : List Char) : Same (fieldName text) (Reader.fieldName text) := by
  have read := identifier_apply text
  cases found : Reader.identifier? text with
  | none =>
    rw [found] at read
    simpa only [fieldName, Reader.fieldName, found] using same_of_declines (declines_of_fail read)
  | some name =>
    rw [found] at read
    simp only [fieldName, Reader.fieldName, found, context, read]
    exact .ok name

theorem same_close (c : Char) (complaint : Complaint) (text : List Char) :
    Same (close c complaint text) (Reader.close c complaint text) := by
  cases text with
  | nil => exact same_of_declines (declines_of_fail rfl)
  | cons first rest => exact same_char c complaint (first :: rest)

/-! ## Quoted texts -/

theorem piece_backslash (quote : Char) :
    piece quote ('\\' :: rest) = commit (context .badEscape (one Reader.isEscaped)) rest := by
  have begun : (do char '\\'; context .badEscape (commit (one Reader.isEscaped)) : Attempt Char) ('\\' :: rest) =
      commit (context .badEscape (one Reader.isEscaped)) rest := by
    rw [char_bind, context_commit]
  rw [piece, alternatives_of_settled (settled_of_commit begun), begun]

theorem piece_plain {quote c : Char} (other : c ≠ quote) (plain : c ≠ '\\') :
    piece quote (c :: rest) = .ok (c, rest) := by
  have taken : one (fun c => c ≠ quote ∧ c ≠ '\\') (c :: rest) = .ok (c, rest) := by simp [one, other, plain]
  rw [piece, alternatives_of_declines (declines_bind _ (declines_char (by simpa using plain))),
    alternatives_of_settled (settled_of_ok taken), taken]

theorem declines_piece {quote : Char} (plain : text.head? ≠ some '\\') (ends : text.head?.all (· = quote)) :
    Declines (piece quote) text := by
  rw [piece, Declines, alternatives_of_declines (declines_bind _ (declines_char plain))]
  refine declines_alternatives (declines_one fun c mem => ?_)
  rw [Option.mem_def.mp mem] at ends
  simp_all

theorem quotedBody_of_badEscape {quote : Char} (declines : Declines (one Reader.isEscaped) text) :
    Same (quotedBody quote ('\\' :: text)) (Reader.stop .badEscape text : Except Stop (List Char × List Char)) := by
  have same : Same (piece quote ('\\' :: text)) (Reader.stop .badEscape text : Except Stop (Char × List Char)) := by
    rw [piece_backslash]
    exact same_commit (same_of_declines declines)
  obtain ⟨f, failed, tells⟩ := Same.error_iff.mp same
  have committed : f.committed := settled_of_commit (piece_backslash quote) f failed
  rw [quotedBody, manyThen_of_committed failed committed]
  exact .error tells

/-- Behind a quote stands a piece, or the end of the text, or the next quote. -/
theorem same_quotedBody (quote : Char) (start text : List Char) :
    Same ((quotedBody quote text).mapError (Failure.through start (some .openText)))
      (Reader.quotedBody quote start text) := by
  fun_induction Reader.quotedBody quote start text with
  | case1 =>
    obtain ⟨_, failed, opened, -⟩ : Declines (piece quote) [] := declines_piece (by simp) rfl
    rw [quotedBody, manyThen_of_open failed opened]
    exact .error ⟨rfl, rfl⟩
  | case2 =>
    exact (quotedBody_of_badEscape (declines_one Text.stops_nil)).mapError fun _ _ tells => tells.through _ _
  | case3 c rest escapes ih =>
    have taken : piece quote ('\\' :: c :: rest) = .ok (c, rest) := by
      rw [piece_backslash]
      simp [commit, context, one, escapes, mapError_ok]
    have shorter : rest.length < ('\\' :: c :: rest).length := Nat.lt_succ_of_lt (Nat.lt_succ_self _)
    rw [quotedBody, manyThen_of_ok taken shorter, mapError_map]
    exact ih.map _
  | case4 c rest other =>
    have declines : Declines (one Reader.isEscaped) (c :: rest) := declines_one (stops_of_not other)
    exact (quotedBody_of_badEscape declines).mapError fun _ _ tells => tells.through _ _
  | case5 rest ended goesOn =>
    have plain := Reader.plain_of_neither ended goesOn
    obtain ⟨_, failed, opened, -⟩ : Declines (piece quote) (quote :: rest) :=
      declines_piece (by simpa using plain) (by simp)
    rw [quotedBody, manyThen_of_open failed opened, char_bind]
    exact .ok _
  | case6 c rest ended goesOn other ih =>
    have plain := Reader.plain_of_neither ended goesOn
    rw [quotedBody, manyThen_of_ok (piece_plain other plain) (by simp), mapError_map]
    exact ih.map _

theorem quoted_cons {quote : Char} (opens : Reader.isQuote quote) :
    quoted (quote :: rest) =
      commit (context .openText (String.ofList <$> (do char quote; quotedBody quote))) (quote :: rest) := by
  rw [quoted, bind_apply, peek_cons opens, ← context_commit]
  rfl

theorem same_quoted {quote : Char} (opens : Reader.isQuote quote) :
    Same (quoted (quote :: rest)) (Reader.quoted quote rest) := by
  rw [quoted_cons opens]
  refine same_commit ?_
  rw [context, map_apply, char_bind, mapError_map]
  exact (same_quotedBody quote (quote :: rest) rest).map _

theorem settled_quoted {quote : Char} (opens : Reader.isQuote quote) : Settled quoted (quote :: rest) :=
  settled_of_commit (quoted_cons opens)

theorem declines_quoted (stops : Text.Stops Reader.isQuote text) : Declines quoted text :=
  declines_bind _ (declines_peek (declines_one stops))

/-! ## Literals -/

theorem number_cons {first : Char} (starts : Reader.isNumberStart first) :
    number (first :: rest) = commit (context .badNumber (keep Reader.numberValue? numeral)) (first :: rest) := by
  rw [number, bind_apply, peek_cons starts, ← context_commit]
  rfl

theorem same_number {first : Char} (starts : Reader.isNumberStart first) :
    Same (number (first :: rest)) (Reader.number (first :: rest)) := by
  rw [number_cons starts]
  refine same_commit ?_
  have taken : numeral (first :: rest) =
      .ok ((first :: rest).takeWhile Reader.isNumberPart, (first :: rest).dropWhile Reader.isNumberPart) := by
    have part : Reader.isNumberPart first := by simp [Reader.isNumberPart, starts]
    rw [numeral, bind_apply, one, if_pos starts, List.takeWhile_cons_of_pos part, List.dropWhile_cons_of_pos part]
    rfl
  cases value : Reader.numberValue? ((first :: rest).takeWhile Reader.isNumberPart) with
  | none =>
    simp only [Reader.number, value]
    exact same_of_declines (declines_of_fail (by simp [keep, taken, value]))
  | some number =>
    simp only [Reader.number, value, context, keep, taken]
    exact .ok _

theorem settled_number {first : Char} (starts : Reader.isNumberStart first) : Settled number (first :: rest) :=
  settled_of_commit (number_cons starts)

theorem declines_number (stops : Text.Stops Reader.isNumberStart text) : Declines number text :=
  declines_bind _ (declines_peek (declines_one stops))

theorem same_truth (text : List Char) :
    Same (context .noLiteral (alternatives [truth]) text) (Reader.word text) := by
  have read := identifier_apply text
  have taken {b : Bool} {rest : List Char} (spelled : truth text = .ok (.boolean b, rest)) :
      Same (context .noLiteral (alternatives [truth]) text) (.ok (.boolean b, rest)) := by
    rw [context, alternatives_of_settled (settled_of_ok spelled), spelled]
    exact .ok _
  unfold Reader.word
  split
  case h_1 found => exact taken (by simp [truth, keep, truthValue?, read, found])
  case h_2 found => exact taken (by simp [truth, keep, truthValue?, read, found])
  case h_3 noTrue noFalse =>
    refine same_of_declines (declines_alternatives (declines_of_fail ?_))
    cases found : Reader.identifier? text with
    | none => simp [truth, keep, read, found, fail]
    | some name =>
      obtain ⟨name, rest⟩ := name
      have neither : truthValue? name = none := by
        unfold truthValue?
        split
        · cases noTrue rest found
        · cases noFalse rest found
        · rfl
      simp [truth, keep, read, found, neither]

theorem same_literal (text : List Char) : Same (literal text) (Reader.literal text) := by
  unfold Reader.literal
  split
  case h_1 =>
    rw [literal, context, alternatives_of_declines (declines_map _ (declines_quoted Text.stops_nil)),
      alternatives_of_declines (declines_number Text.stops_nil)]
    exact same_truth []
  case h_2 first rest =>
    split
    case isTrue opens =>
      refine same_context _ ?_
      rw [alternatives_of_settled (settled_map (settled_quoted opens))]
      exact same_map _ (same_quoted opens)
    case isFalse noQuote =>
      rw [literal, context, alternatives_of_declines (declines_map _ (declines_quoted (stops_of_not noQuote)))]
      split
      case isTrue starts =>
        rw [alternatives_of_settled (settled_number starts)]
        exact same_context _ (same_number starts)
      case isFalse noNumber =>
        rw [alternatives_of_declines (declines_number (stops_of_not noNumber))]
        exact same_truth (first :: rest)

/-! ## Conditions -/

theorem declines_compared {c : Comparison} (absent : ¬c.symbol.toList <+: text) : Declines (compared c) text := by
  refine declines_map _ (declines_of_fail ?_)
  rw [exactly, if_neg (mt List.isPrefixOf_iff_prefix.mp absent)]

/-- What the text does not begin with is no comparison to take. -/
theorem alternatives_compared {front back : List Comparison} {c : Comparison}
    (absent : ∀ d ∈ front, ¬d.symbol.toList <+: text) :
    alternatives ((front ++ c :: back).map compared) text = alternatives (compared c :: back.map compared) text := by
  rw [List.map_append, List.map_cons, alternatives_append]
  intro a mem
  obtain ⟨d, among, rfl⟩ := List.mem_map.mp mem
  exact declines_compared (absent d among)

theorem same_comparison (text : List Char) : Same (comparison text) (Reader.comparison text) := by
  unfold Reader.comparison
  split
  case h_1 => exact .ok _
  case h_2 => exact .ok _
  case h_3 => exact .ok _
  case h_4 => exact .ok _
  -- a shorter symbol counts only if no longer one is there
  case h_5 rest single =>
    have longer : ¬['='] <+: rest := fun ⟨later, same⟩ => single later same.symm
    have absent : ∀ c ∈ [.equal, .notEqual, .atMost, .atLeast], ¬(Comparison.symbol c).toList <+: '<' :: rest := by
      simp [Comparison.symbol, longer]
    refine same_context _ ?_
    rw [show comparisons = [.equal, .notEqual, .atMost, .atLeast] ++ .less :: [.greater] from rfl,
      alternatives_compared absent]
    exact .ok _
  case h_6 rest single =>
    have longer : ¬['='] <+: rest := fun ⟨later, same⟩ => single later same.symm
    have absent : ∀ c ∈ [.equal, .notEqual, .atMost, .atLeast, .less],
        ¬(Comparison.symbol c).toList <+: '>' :: rest := by
      simp [Comparison.symbol, longer]
    refine same_context _ ?_
    rw [show comparisons = [.equal, .notEqual, .atMost, .atLeast, .less] ++ .greater :: [] from rfl,
      alternatives_compared absent]
    exact .ok _
  case h_7 noEqual noNotEqual noAtMost noAtLeast noLess noGreater =>
    have absent : ∀ c : Comparison, ¬c.symbol.toList <+: text := by
      rintro c ⟨rest, same⟩
      cases c with
      | equal => exact noEqual rest same.symm
      | notEqual => exact noNotEqual rest same.symm
      | less => exact noLess rest same.symm
      | atMost => exact noAtMost rest same.symm
      | greater => exact noGreater rest same.symm
      | atLeast => exact noAtLeast rest same.symm
    refine same_of_declines ?_
    rw [Declines, show comparisons = [.equal, .notEqual, .atMost, .atLeast, .less] ++ .greater :: [] from rfl,
      alternatives_compared fun c _ => absent c]
    exact declines_alternatives (declines_compared (absent .greater))

theorem fieldName_shorter {name : String} (read : Reader.fieldName text = .ok (name, rest)) :
    rest.length ≤ text.length := by
  obtain ⟨i, rfl, -⟩ := Reader.fieldName_ok read
  simp

theorem pointed_shorter {name : String} {mid : List Char}
    (given : behind '.' fieldName ('.' :: rest) = .ok (name, mid)) : mid.length ≤ rest.length := by
  have same := same_behind '.' (same_fieldName rest)
  rw [given] at same
  exact fieldName_shorter same.ok_of_ok

theorem same_morePath {rounds : Nat} (enough : text.length ≤ rounds) :
    Same (many (behind '.' fieldName) text) (Reader.morePath rounds text) := by
  induction rounds generalizing text with
  | zero =>
    cases text with
    | nil =>
      obtain ⟨_, failed, opened, -⟩ : Declines (behind '.' fieldName) [] := declines_behind _ (by simp)
      rw [many_of_open failed opened]
      exact .ok _
    | cons _ _ => cases enough
  | succ rounds ih =>
    unfold Reader.morePath
    split
    case h_1 rest same =>
      cases same
      rw [many_of_settled (settled_behind _ _ _) fun _ _ given => Nat.lt_succ_of_le (pointed_shorter given)]
      refine same_bind (same_behind _ (same_fieldName rest)) fun name mid named => ?_
      have shorter : mid.length ≤ rest.length := fieldName_shorter named
      exact same_bind (ih (Nat.le_trans shorter (Nat.le_of_succ_le_succ enough))) fun _ _ _ => .ok _
    case h_2 text _ _ point =>
      have other : text.head? ≠ some '.' := by
        intro same
        obtain ⟨rest, rfl⟩ := List.head?_eq_some_iff.mp same
        exact point rounds rest rfl rfl
      obtain ⟨_, failed, opened, -⟩ := declines_behind fieldName other
      rw [many_of_open failed opened]
      exact .ok _

theorem same_path (text : List Char) :
    Same (context .noFilterField (many1 (behind '.' fieldName)) text) (Reader.path text) := by
  by_cases point : text.head? = some '.'
  · obtain ⟨rest, rfl⟩ := List.head?_eq_some_iff.mp point
    refine same_context _ ?_
    rw [Reader.path, Reader.bind_of_ok Reader.expect_text, many1]
    have first : Same (trace (behind '.' fieldName) ('.' :: rest)) (Reader.fieldName rest) := by
      rw [trace_of_settled (settled_behind _ _ _)]
      exact same_behind _ (same_fieldName rest)
    refine same_bind first fun _ _ _ => ?_
    rw [Reader.bind_of_ok Reader.get_apply]
    exact same_bind (same_morePath (Nat.le_refl _)) fun _ _ _ => .ok _
  · rw [Reader.path, bind_apply, expect_other point]
    exact same_of_declines (declines_bind _ (declines_trace (declines_behind _ point)))

theorem same_condition (text : List Char) : Same (condition text) (Reader.condition text) := by
  refine same_bind (same_blanks _) fun _ _ _ => ?_
  refine same_bind (same_char _ _ _) fun _ _ _ => ?_
  refine same_bind (same_blanks _) fun _ _ _ => ?_
  refine same_bind (same_char _ _ _) fun _ _ _ => ?_
  refine same_bind (same_path _) fun _ _ _ => ?_
  refine same_bind (same_blanks _) fun _ _ _ => ?_
  refine same_bind (same_comparison _) fun _ _ _ => ?_
  refine same_bind (same_blanks _) fun _ _ _ => ?_
  refine same_bind (same_literal _) fun _ _ _ => ?_
  refine same_bind (same_blanks _) fun _ _ _ => ?_
  refine same_bind (same_close _ _ _) fun _ _ _ => ?_
  exact .ok _

/-! ## Steps -/

theorem same_bracketItem (text : List Char) : Same (bracketItem text) (Reader.bracketItem text) := by
  cases text with
  | nil => exact .error ⟨rfl, rfl⟩
  | cons first rest =>
    rw [bracketItem, bind_apply, context, peek_cons rfl]
    show Same (context .noBracketContent _ (first :: rest)) _
    by_cases star : first = '*'
    · cases star
      exact .ok _
    have noStar : Declines ((fun _ => Step.wildcard) <$> char '*') (first :: rest) :=
      declines_map _ (declines_char (by simpa using star))
    by_cases opens : Reader.isQuote first
    · have item : Reader.bracketItem (first :: rest) = (Step.field <$> Reader.quoted first) rest := by
        rcases Reader.isQuote_iff.mp opens with rfl | rfl <;> rfl
      refine same_context _ ?_
      rw [item, alternatives_of_declines noStar, alternatives_of_settled (settled_map (settled_quoted opens))]
      exact same_map _ (same_quoted opens)
    have noQuote : Declines (Step.field <$> quoted) (first :: rest) :=
      declines_map _ (declines_quoted (stops_of_not opens))
    by_cases mark : first = '?'
    · cases mark
      refine same_context _ ?_
      rw [alternatives_of_declines noStar, alternatives_of_declines noQuote,
        alternatives_of_settled (settled_map (settled_behind _ _ _))]
      exact same_map _ (same_behind _ (same_condition rest))
    · have noMark : Declines (Step.filter <$> behind '?' condition) (first :: rest) :=
        declines_map _ (declines_behind _ (by simpa using mark))
      have item : Reader.bracketItem (first :: rest) = Reader.stop .noBracketContent (first :: rest) := by
        simp [Reader.bracketItem, opens]
      rw [item]
      refine same_of_declines ?_
      rw [Declines, alternatives_of_declines noStar, alternatives_of_declines noQuote]
      exact declines_alternatives noMark

theorem same_bracket (text : List Char) : Same (bracket text) (Reader.bracket text) := by
  refine same_bind (same_blanks _) fun _ _ _ => ?_
  refine same_bind (same_bracketItem _) fun _ _ _ => ?_
  refine same_bind (same_blanks _) fun _ _ _ => ?_
  refine same_bind (same_close _ _ _) fun _ _ _ => ?_
  exact .ok _

theorem step_point (rest : List Char) : step ('.' :: rest) = (Step.field <$> behind '.' fieldName) ('.' :: rest) :=
  alternatives_of_settled (settled_map (settled_behind _ _ _))

theorem step_bracket (rest : List Char) : step ('[' :: rest) = commit bracket rest := by
  rw [step, alternatives_of_declines (declines_map _ (declines_behind _ (by simp))),
    alternatives_of_settled (settled_behind _ _ _), behind_cons]

theorem declines_step (noPoint : text.head? ≠ some '.') (noBracket : text.head? ≠ some '[') : Declines step text := by
  rw [Declines, step, alternatives_of_declines (declines_map _ (declines_behind _ noPoint))]
  exact declines_alternatives (declines_behind _ noBracket)

/-- Where a step begins, the attempt to read one has committed itself; elsewhere it declines. -/
theorem same_step (text : List Char) : (Settled step text ∧ Same ((some <$> step) text) (Reader.step? text)) ∨
    Declines step text ∧ Reader.step? text = if text = [] then .ok (none, []) else Reader.stop .unexpected text := by
  by_cases point : text.head? = some '.'
  · obtain ⟨rest, rfl⟩ := List.head?_eq_some_iff.mp point
    refine .inl ⟨?_, ?_⟩
    · rw [Settled, step_point]
      exact settled_map (settled_behind _ _ _)
    · rw [map_apply, step_point, ← map_apply]
      exact same_map _ (same_map _ (same_behind _ (same_fieldName rest)))
  by_cases opens : text.head? = some '['
  · obtain ⟨rest, rfl⟩ := List.head?_eq_some_iff.mp opens
    refine .inl ⟨?_, ?_⟩
    · exact settled_of_commit (step_bracket rest)
    · rw [map_apply, step_bracket, ← map_apply]
      exact same_map _ (same_commit (same_bracket rest))
  · refine .inr ⟨declines_step point opens, ?_⟩
    unfold Reader.step?
    split
    case h_1 => rfl
    case h_2 => simp at point
    case h_3 => simp at opens
    case h_4 more _ _ => exact (if_neg more).symm

theorem declines_ended (more : text ≠ []) : Declines ended text := by
  cases text with
  | nil => exact absurd rfl more
  | cons _ _ => exact declines_of_fail rfl

theorem step?_shorter {s : Step} (taken : Reader.step? text = .ok (some s, rest)) : rest.length < text.length := by
  rcases Reader.step?_ok taken with ⟨-, -, same⟩ | ⟨t, rfl, -⟩
  · cases same
  · have positive := t.length_text_pos
    rw [List.length_append]
    omega

theorem same_steps {rounds : Nat} (enough : text.length < rounds) : Same (steps text) (Reader.steps rounds text) := by
  induction rounds generalizing text with
  | zero => cases enough
  | succ rounds ih =>
    have blankless : (Text.dropBlanks text).length ≤ text.length := (List.dropWhile_sublist _).length_le
    rw [Reader.steps, Reader.bind_of_ok (show Reader.blanks text = .ok ((), Text.dropBlanks text) from rfl)]
    have spaced : (do blanks; step : Attempt Step) text = step (Text.dropBlanks text) := rfl
    rcases same_step (Text.dropBlanks text) with ⟨settled, same⟩ | ⟨⟨f, failed, opened, -⟩, ends⟩
    · rw [map_apply] at same
      cases given : step (Text.dropBlanks text) with
      | error f =>
        rw [given] at same
        obtain ⟨s, stopped, tells⟩ := same.error_of_error
        rw [steps, manyThen_of_committed (spaced.trans given) (settled f given), bind_apply, stopped]
        exact .error tells
      | ok found =>
        obtain ⟨s, rest⟩ := found
        rw [given] at same
        have taken : Reader.step? (Text.dropBlanks text) = .ok (some s, rest) := same.ok_of_ok
        have shorter := step?_shorter taken
        rw [steps, manyThen_of_ok (spaced.trans given) (by omega), Reader.bind_of_ok taken]
        have following : Same (steps rest) (Reader.steps rounds rest) := ih (by omega)
        show Same _ ((Reader.steps rounds >>= fun following => pure (s :: following)) rest)
        rw [bind_pure_comp, map_apply]
        exact following.map _
    · rw [steps, manyThen_of_open (spaced.trans failed) opened, bind_apply, bind_apply, bind_apply, ends]
      show Same (Except.bind (context .unexpected Attempt.ended (Text.dropBlanks text)) _) _
      split
      case isTrue ended =>
        rw [ended]
        exact .ok _
      case isFalse more =>
        obtain ⟨f, failed, tells⟩ := Same.error_iff.mp (same_of_declines (declines_ended more))
        rw [failed]
        exact .error tells

/-- By alternatives a query comes to the same. -/
theorem same_query (text : List Char) : Same (query text) (Reader.query text) := by
  refine same_bind (same_blanks _) fun _ _ _ => ?_
  refine same_bind (same_char _ _ _) fun _ behind _ => ?_
  rw [Reader.bind_of_ok Reader.get_apply]
  refine same_bind (same_steps (Nat.lt_succ_self _)) fun _ _ _ => ?_
  exact .ok _

end Attempt

/-! ## Reports -/

/-- What is told of a text that is no query. -/
structure Report where
  /-- A byte of the text. -/
  position : Nat
  reason : String
  /-- The character that was met. -/
  found : Option Char
  deriving DecidableEq, Repr

def Failure.report (f : Failure) (text : List Char) : Report :=
  let (place, reason) :=
    match f.complaint? with
    | some (place, complaint) => (place, complaint.message)
    | none => (f.stood?.getD [], "invalid query")
  ⟨byteLength text - byteLength place, reason, (Text.dropBlanks (f.stood?.getD [])).head?⟩

/-- Reads a query by alternatives. -/
def compile (source : String) : Except Report Query :=
  match Attempt.query source.toList with
  | .ok (query, _) => .ok query
  | .error f => .error (f.report source.toList)

theorem Failure.Tells.report {f : Failure} {s : Stop} (tells : f.Tells s) (text : List Char) :
    f.report text = ⟨byteLength text - byteLength s.place, s.complaint.message, (Text.dropBlanks s.stood).head?⟩ := by
  rw [Failure.report, tells.complaint, tells.stood]
  rfl

/-- **Read by alternatives, a text is the same query.** -/
theorem compile_eq_ok {source : String} {q : Query} : compile source = .ok q ↔ read source = .ok q := by
  have same := Attempt.same_query source.toList
  rw [compile, read]
  generalize Attempt.query source.toList = given, Reader.query source.toList = taken at same
  cases same with
  | ok found => simp
  | error tells => simp

/-- **Read by alternatives, a text is refused at the same place for the same reason.** There always is a complaint. -/
theorem compile_eq_error {source : String} {position : Nat} {reason : String} {found : Option Char} :
    compile source = .error ⟨position, reason, found⟩ ↔
      ∃ complaint : Complaint, complaint.message = reason ∧
        read source = .error (.query position complaint found) := by
  have same := Attempt.same_query source.toList
  rw [compile, read]
  generalize Attempt.query source.toList = given, Reader.query source.toList = taken at same
  cases same with
  | ok found => simp
  | error tells =>
    simp only [tells.report, Stop.fault, Except.error.injEq, Report.mk.injEq, Fault.query.injEq]
    constructor
    · rintro ⟨same, reason, met⟩
      exact ⟨_, reason, same, rfl, met⟩
    · rintro ⟨_, reason, same, rfl, met⟩
      exact ⟨same, reason, met⟩

end Query
end DemoTape
