/-
# A complaint stands behind a text that could go on

Where a query cannot be read, everything before the place of the complaint is the beginning of a query that can be read
(`read_error`). A reader follows a nonterminal (`Reader.Follows`): it takes what one of its trees spells from the front
of a text, or it stops behind the beginning of what one of them spells. Readers in a row follow their nonterminals in a
row (`Follows.bind`), so it is enough to look at the readers of single characters and tokens. Each of these stops where
it began, apart from the reader of a quoted text, which stops behind a backslash that has nothing to escape, and goes
back to the opening quote only if there is no closing one.
-/
import DemoTape.Proofs.Query.Alternatives

namespace DemoTape
set_option autoImplicit false

namespace Grammar

instance : Inhabited Blanks := ⟨.none⟩
instance : Inhabited Ident := ⟨⟨'a', [], by decide, nofun⟩⟩
instance : Inhabited Path := ⟨⟨default, []⟩⟩
instance : Inhabited Literal := ⟨.boolean true⟩
instance : Inhabited Inner := ⟨.wildcard⟩

end Grammar

namespace Query
namespace Reader

instance : Inhabited Comparison := ⟨.equal⟩

/-- Whether what stands before a place of a text is the beginning of what some tree spells. -/
def Opens {Tree : Type} (spell : Tree → List Char) (text place : List Char) : Prop :=
  ∃ before, text = before ++ place ∧ ∃ t, before <+: spell t

/-- Whether a reader takes what some tree spells from the front of a text, or stops behind the beginning of that. -/
structure Follows {α Tree : Type} (r : Reader α) (spell : Tree → List Char) : Prop where
  took {text rest : List Char} {a : α} (read : r text = .ok (a, rest)) : ∃ t, text = spell t ++ rest
  stopped {text : List Char} {s : Stop} (failed : r text = .error s) : Opens spell text s.place

variable {α β Tree Front Behind : Type} {r : Reader α} {text rest : List Char} {s : Stop}
  {spell : Tree → List Char} {front : Front → List Char} {behind : Behind → List Char}

/-! ## Beginnings -/

/-- A reader that stops where it began has come through the beginning of anything. -/
theorem opens_at_once [Nonempty Tree] (spell : Tree → List Char) (stays : s.place = text) :
    Opens spell text s.place :=
  ⟨[], stays.symm, Classical.choice inferInstance, List.nil_prefix⟩

namespace Opens
variable {place : List Char}

/-- The beginning of what goes on is the beginning of the whole. -/
theorem after (w : List Char) (opens : Opens behind text place) (more : ∀ u, ∃ t, spell t = w ++ behind u) :
    Opens spell (w ++ text) place := by
  obtain ⟨before, rfl, u, begun⟩ := opens
  obtain ⟨t, spelled⟩ := more u
  refine ⟨w ++ before, (List.append_assoc ..).symm, t, ?_⟩
  rw [spelled]
  exact (List.prefix_append_right_inj w).mpr begun

/-- The beginning of the front is the beginning of the whole. -/
theorem whole (opens : Opens front text place) (more : ∀ u, ∃ t, front u <+: spell t) : Opens spell text place := by
  obtain ⟨before, spelled, u, begun⟩ := opens
  obtain ⟨t, goesOn⟩ := more u
  exact ⟨before, spelled, t, begun.trans goesOn⟩

end Opens

/-! ## Sequences -/

theorem bind_eq_error {k : α → Reader β} :
    (r >>= k) text = .error s ↔ r text = .error s ∨ ∃ a mid, r text = .ok (a, mid) ∧ k a mid = .error s := by
  rw [bind_apply]
  cases r text with
  | error stop => simp [Except.bind]
  | ok given =>
    constructor
    · intro late
      exact .inr ⟨given.1, given.2, rfl, late⟩
    · rintro (early | ⟨_, _, same, late⟩)
      · cases early
      · cases same
        exact late

theorem map_eq_error {f : α → β} : (f <$> r) text = .error s ↔ r text = .error s := by
  rw [map_apply]
  exact except_map_eq_error

theorem follows_pure (a : α) : Follows (pure a) fun _ : Unit => [] where
  took read := ⟨(), (pure_eq_ok.mp read).2⟩
  stopped failed := by cases failed

theorem follows_get : Follows get fun _ : Unit => [] where
  took read := ⟨(), (get_eq_ok.mp read).2⟩
  stopped failed := by cases failed

namespace Follows

/-- Two readers in a row take what two trees in a row spell. -/
theorem bind [Nonempty Behind] {k : α → Reader β} (first : Follows r front) (second : ∀ a, Follows (k a) behind) :
    Follows (r >>= k) fun pair : Front × Behind => front pair.1 ++ behind pair.2 where
  took read := by
    obtain ⟨a, mid, begun, ended⟩ := bind_eq_ok.mp read
    obtain ⟨t, rfl⟩ := first.took begun
    obtain ⟨u, rfl⟩ := (second a).took ended
    exact ⟨(t, u), by simp⟩
  stopped failed := by
    rcases bind_eq_error.mp failed with early | ⟨a, mid, begun, late⟩
    · exact (first.stopped early).whole fun t => ⟨(t, Classical.choice inferInstance), List.prefix_append _ _⟩
    · obtain ⟨t, rfl⟩ := first.took begun
      exact ((second a).stopped late).after (front t) fun u => ⟨(t, u), rfl⟩

/-- A reader follows all trees that spell the same and more. -/
theorem mono (follows : Follows r front) (more : ∀ t, ∃ u, spell u = front t) : Follows r spell where
  took read := by
    obtain ⟨t, spelled⟩ := follows.took read
    obtain ⟨u, same⟩ := more t
    exact ⟨u, by rw [same, spelled]⟩
  stopped failed := (follows.stopped failed).after [] more

end Follows

/-! ## Single characters and tokens -/

theorem place_of_expect {c : Char} {complaint : Complaint} (failed : expect c complaint text = .error s) :
    s.place = text := by
  unfold expect at failed
  split at failed
  · cases failed
    rfl
  · split at failed
    · cases failed
    · cases failed
      rfl

theorem place_of_close {c : Char} {complaint : Complaint} (failed : close c complaint text = .error s) :
    s.place = text := by
  unfold close at failed
  split at failed
  · cases failed
    rfl
  · exact place_of_expect failed

theorem place_of_fieldName (failed : fieldName text = .error s) : s.place = text := by
  unfold fieldName at failed
  split at failed
  · cases failed
  · cases failed
    rfl

theorem place_of_comparison (failed : comparison text = .error s) : s.place = text := by
  unfold comparison at failed
  split at failed
  case h_7 =>
    cases failed
    rfl
  all_goals cases failed

theorem place_of_number (failed : number text = .error s) : s.place = text := by
  unfold number at failed
  split at failed
  · cases failed
  · cases failed
    rfl

theorem place_of_word (failed : word text = .error s) : s.place = text := by
  unfold word at failed
  split at failed
  · cases failed
  · cases failed
  · cases failed
    rfl

theorem follows_expect (c : Char) (complaint : Complaint) : Follows (expect c complaint) fun _ : Unit => [c] where
  took read := ⟨(), expect_eq_ok.mp read⟩
  stopped failed := opens_at_once _ (place_of_expect failed)

theorem follows_close (c : Char) (complaint : Complaint) : Follows (close c complaint) fun _ : Unit => [c] where
  took read := ⟨(), close_eq_ok.mp read⟩
  stopped failed := opens_at_once _ (place_of_close failed)

theorem follows_blanks : Follows blanks Grammar.Blanks.text where
  took read := blanks_ok read
  stopped failed := by cases failed

theorem follows_fieldName : Follows fieldName Grammar.Ident.text where
  took read := by
    obtain ⟨i, spelled, -⟩ := fieldName_ok read
    exact ⟨i, spelled⟩
  stopped failed := opens_at_once _ (place_of_fieldName failed)

theorem follows_comparison : Follows comparison fun c : Comparison => c.symbol.toList where
  took read := ⟨_, comparison_ok read⟩
  stopped failed := opens_at_once _ (place_of_comparison failed)

/-! ## Quoted texts and literals -/

/-- Behind the opening quote, a quoted text goes back to its beginning or stops behind a backslash. -/
theorem quotedBody_stopped {quote : Char} {start : List Char} (failed : quotedBody quote start text = .error s) :
    s.place = start ∨ ∃ pieces : List Grammar.Piece, (∀ p ∈ pieces, p.Within quote) ∧
      text = pieces.flatMap Grammar.Piece.text ++ '\\' :: s.place := by
  fun_induction quotedBody quote start text with
  | case1 =>
    cases failed
    exact .inl rfl
  | case2 =>
    cases failed
    exact .inr ⟨[], by simp, rfl⟩
  | case3 c later escapes ih =>
    rcases ih (except_map_eq_error.mp failed) with back | ⟨pieces, within, rfl⟩
    · exact .inl back
    · exact .inr ⟨.escaped c :: pieces, List.forall_mem_cons.mpr ⟨isEscaped_iff.mp escapes, within⟩, rfl⟩
  | case4 =>
    cases failed
    exact .inr ⟨[], by simp, rfl⟩
  | case5 later => cases failed
  | case6 c later ended goesOn other ih =>
    rcases ih (except_map_eq_error.mp failed) with back | ⟨pieces, within, rfl⟩
    · exact .inl back
    · have plain := plain_of_neither ended goesOn
      exact .inr ⟨.plain c :: pieces, List.forall_mem_cons.mpr ⟨⟨other, plain⟩, within⟩, rfl⟩

/-- A quoted text stops where it begins or behind a backslash, which might escape another one. -/
theorem quoted_stopped {quote : Char} (opens : isQuote quote) (failed : quoted quote text = .error s) :
    Opens Grammar.Quoted.text (quote :: text) s.place := by
  have quotes := isQuote_iff.mp opens
  rcases quotedBody_stopped (except_map_eq_error.mp failed) with back | ⟨pieces, within, rfl⟩
  · exact ⟨[], back.symm, ⟨quote, [], quotes, nofun⟩, List.nil_prefix⟩
  · have escaped : ∀ p ∈ pieces ++ [.escaped '\\'], p.Within quote := by
      intro p mem
      rcases List.mem_append.mp mem with there | last
      · exact within p there
      · rw [List.mem_singleton.mp last]
        exact .inl rfl
    refine ⟨quote :: (pieces.flatMap Grammar.Piece.text ++ ['\\']), by simp, ⟨quote, _, quotes, escaped⟩, ?_⟩
    exact ⟨['\\', quote], by simp [Grammar.Quoted.text, Grammar.Piece.text]⟩

theorem follows_literal : Follows literal Grammar.Literal.spelling where
  took read := by
    obtain ⟨l, spelled, -⟩ := literal_ok read
    exact ⟨l, spelled⟩
  stopped failed := by
    unfold literal at failed
    split at failed
    · cases failed
      exact opens_at_once _ rfl
    split at failed
    case isTrue opens =>
      exact (quoted_stopped opens (map_eq_error.mp failed)).whole fun q => ⟨.text q, List.prefix_rfl⟩
    split at failed
    · exact opens_at_once _ (place_of_number failed)
    · exact opens_at_once _ (place_of_word failed)

/-! ## Conditions -/

theorem follows_morePath (rounds : Nat) : Follows (morePath rounds) Grammar.pointed where
  took read := by
    obtain ⟨idents, spelled, -⟩ := morePath_ok read
    exact ⟨idents, spelled⟩
  stopped {text s} failed := by
    induction rounds generalizing text with
    | zero => cases failed
    | succ rounds ih =>
      unfold morePath at failed
      split at failed
      case h_1 rounds later same =>
        cases same
        rcases bind_eq_error.mp failed with noName | ⟨name, mid, named, late⟩
        · refine (follows_fieldName.stopped noName).after ['.'] fun i => ⟨[i], ?_⟩
          simp [Grammar.pointed]
        · obtain ⟨i, rfl⟩ := follows_fieldName.took named
          rcases bind_eq_error.mp late with further | ⟨names, rest, -, ended⟩
          · refine (ih further).after ('.' :: i.text) fun idents => ⟨i :: idents, ?_⟩
            simp [Grammar.pointed]
          · cases ended
      case h_2 => cases failed

theorem follows_path : Follows path Grammar.Path.text := by
  unfold path
  refine (Follows.bind (follows_expect _ _) fun _ => .bind follows_fieldName fun _ => .bind follows_get fun _ =>
    .bind (follows_morePath _) fun _ => follows_pure _).mono ?_
  rintro ⟨_, first, _, more, _⟩
  exact ⟨⟨first, more⟩, by simp [Grammar.Path.text]⟩

theorem follows_condition : Follows condition Grammar.Filter.text := by
  unfold condition
  refine (Follows.bind follows_blanks fun _ => .bind (follows_expect _ _) fun _ => .bind follows_blanks fun _ =>
    .bind (follows_expect _ _) fun _ => .bind follows_path fun _ => .bind follows_blanks fun _ =>
    .bind follows_comparison fun _ => .bind follows_blanks fun _ => .bind follows_literal fun _ =>
    .bind follows_blanks fun _ => .bind (follows_close _ _) fun _ => follows_pure _).mono ?_
  rintro ⟨beforeOpen, _, beforeSubject, _, path, beforeComparison, comparison, beforeLiteral, literal, beforeClose,
    _, _⟩
  refine ⟨⟨beforeOpen, beforeSubject, path, beforeComparison, comparison, beforeLiteral, literal, beforeClose⟩, ?_⟩
  simp [Grammar.Filter.text]

/-! ## Steps -/

theorem follows_bracketItem : Follows bracketItem Grammar.Inner.text where
  took read := by
    obtain ⟨i, spelled, -⟩ := bracketItem_ok read
    exact ⟨i, spelled⟩
  stopped failed := by
    unfold bracketItem at failed
    split at failed
    · cases failed
      exact opens_at_once _ rfl
    · cases failed
    · exact (follows_condition.stopped (map_eq_error.mp failed)).after ['?'] fun f => ⟨.filter f, rfl⟩
    split at failed
    case isTrue opens =>
      exact (quoted_stopped opens (map_eq_error.mp failed)).whole fun q => ⟨.name q, List.prefix_rfl⟩
    case isFalse =>
      cases failed
      exact opens_at_once _ rfl

/-- The parts of a step in brackets behind the opening one. -/
theorem follows_bracket : Follows bracket fun parts : Grammar.Blanks × Grammar.Inner × Grammar.Blanks =>
    parts.1.text ++ (parts.2.1.text ++ (parts.2.2.text ++ [']'])) := by
  unfold bracket
  refine (Follows.bind follows_blanks fun _ => .bind follows_bracketItem fun _ => .bind follows_blanks fun _ =>
    .bind (follows_close _ _) fun _ => follows_pure _).mono ?_
  rintro ⟨before, inner, after, _, _⟩
  exact ⟨(before, inner, after), by simp⟩

/-- Where no step can be read, there is none begun, or one that might go on. -/
theorem step?_stopped (failed : step? text = .error s) : s.place = text ∨ Opens Grammar.Step.text text s.place := by
  unfold step? at failed
  split at failed
  · cases failed
  · have noName := map_eq_error.mp (map_eq_error.mp failed)
    exact .inr ((follows_fieldName.stopped noName).after ['.'] fun i => ⟨.name i, rfl⟩)
  · have noBracket := map_eq_error.mp failed
    refine .inr ((follows_bracket.stopped noBracket).after ['['] fun parts => ?_)
    exact ⟨.bracket parts.1 parts.2.1 parts.2.2, rfl⟩
  · cases failed
    exact .inl rfl

theorem follows_steps (rounds : Nat) : Follows (steps rounds) fun parts : List (Grammar.Blanks × Grammar.Step) ×
    Grammar.Blanks => Grammar.spaced parts.1 ++ parts.2.text where
  took read := by
    obtain ⟨parts, after, rfl, rfl, -⟩ := steps_ok read
    exact ⟨(parts, after), by simp⟩
  stopped {text s} failed := by
    induction rounds generalizing text with
    | zero =>
      cases failed
      exact opens_at_once _ rfl
    | succ rounds ih =>
      rcases bind_eq_error.mp failed with never | ⟨_, behind, blank, late⟩
      · cases never
      obtain ⟨w, rfl⟩ := blanks_ok blank
      rcases bind_eq_error.mp late with noStep | ⟨found, rest, taken, later⟩
      · rcases step?_stopped noStep with here | opens
        · exact ⟨w.text, by rw [here], ([], w), List.prefix_rfl⟩
        · refine opens.after w.text fun t => ⟨([(w, t)], .none), ?_⟩
          simp [Grammar.spaced, Grammar.Blanks.none]
      · rcases step?_ok taken with ⟨-, -, rfl⟩ | ⟨t, rfl, rfl⟩
        · cases later
        · rcases bind_eq_error.mp later with further | ⟨_, _, -, ended⟩
          · rw [← List.append_assoc]
            refine (ih further).after (w.text ++ t.text) fun parts => ⟨((w, t) :: parts.1, parts.2), ?_⟩
            simp [Grammar.spaced]
          · cases ended

theorem follows_query : Follows query Grammar.Tree.text := by
  unfold query
  refine (Follows.bind follows_blanks fun _ => .bind (follows_expect _ _) fun _ => .bind follows_get fun _ =>
    .bind (follows_steps _) fun _ => follows_pure _).mono ?_
  rintro ⟨before, _, _, ⟨steps, after⟩, _⟩
  exact ⟨⟨before, steps, after⟩, by simp [Grammar.Tree.text]⟩

end Reader

/-! ## Queries -/

theorem byteLength_eq (text : List Char) : byteLength text = (String.ofList text).utf8ByteSize := by
  induction text with
  | nil => rfl
  | cons c text ih =>
    rw [String.ofList_cons, String.utf8ByteSize_append, String.utf8ByteSize_singleton, ← ih]
    simp [byteLength]

/-- **A complaint stands behind a text that could go on.** Where a text is no query, the fault is a complaint about a
place within the text and between two characters, and what stands before that place can be continued to a query. Read by
alternatives, the text is refused there too and with the wording of this complaint, never for want of any. -/
theorem read_error {source : String} {fault : Fault} (refused : read source = .error fault) :
    ∃ (position : Nat) (complaint : Complaint) (found : Option Char),
      fault = .query position complaint found ∧
      position ≤ source.utf8ByteSize ∧ String.Pos.Raw.IsValid source ⟨position⟩ ∧
      (∃ before after more : String, ∃ q,
        source = before ++ after ∧ before.utf8ByteSize = position ∧ read (before ++ more) = .ok q) ∧
      compile source = .error ⟨position, complaint.message, found⟩ ∧ complaint.message ≠ "invalid query" := by
  have here := refused
  rw [read] at here
  split at here
  case h_1 => cases here
  case h_2 s stopped =>
    obtain ⟨before, spelled, t, more, begun⟩ := Reader.follows_query.stopped stopped
    have parts : source = String.ofList before ++ String.ofList s.place := by
      rw [← String.ofList_append, ← spelled, String.ofList_toList]
    have place : byteLength source.toList - byteLength s.place = (String.ofList before).utf8ByteSize := by
      rw [byteLength_eq, byteLength_eq, String.ofList_toList, parts, String.utf8ByteSize_append, Nat.add_sub_cancel]
    have goesOn : read (String.ofList before ++ String.ofList more) = .ok t.query :=
      read_of_derives ⟨t, by rw [← String.ofList_append, begun, String.toList_ofList], rfl⟩
    have fault_eq : fault = .query (String.ofList before).utf8ByteSize s.complaint (Text.dropBlanks s.stood).head? := by
      rw [← Except.error.inj here, Stop.fault, place]
    refine ⟨_, _, _, fault_eq, ?_, ?_, ⟨_, _, _, _, parts, rfl, goesOn⟩, ?_, ?_⟩
    · rw [parts, String.utf8ByteSize_append]
      exact Nat.le_add_right _ _
    · exact String.Pos.Raw.isValid_iff_exists_append.mpr ⟨_, _, parts, rfl⟩
    · exact compile_eq_error.mpr ⟨_, rfl, by rw [refused, fault_eq]⟩
    · cases s.complaint <;> decide

/-- The accent takes two bytes, and a letter that may not be escaped stands behind the 23rd. -/
theorem read_error_escape :
    read "$['é'][?(@.name == 'a\\q')]" = .error (.query 23 .badEscape (some 'q')) ∧
      ∃ before after more : String, ∃ q, "$['é'][?(@.name == 'a\\q')]" = before ++ after ∧
        before.utf8ByteSize = 23 ∧ read (before ++ more) = .ok q := by
  have refused : read "$['é'][?(@.name == 'a\\q')]" = .error (.query 23 .badEscape (some 'q')) := by decide +kernel
  obtain ⟨_, _, _, same, -, -, goesOn, -⟩ := read_error refused
  cases same
  exact ⟨refused, goesOn⟩

-- an open bracket is met at the end, an open text is complained of where it begins, and an accent takes two bytes
example : read "$.a[" = .error (.query 4 .openBracket none) ∧ read "$['a" = .error (.query 2 .openText none) ∧
    read "$['é'].é" = .error (.query 8 .noFieldName (some 'é')) := by decide +kernel

end Query
end DemoTape
