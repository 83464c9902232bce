/-
# Attempts

An attempt reads from the front of a text and may be taken back: of alternatives one is tried after the other, and one
that fails gives way to the next unless it has committed itself (`Attempt.commit`). A failure leaves a trail of the
places it came through, from the innermost on, and some of them bear a complaint (`Attempt.context`). The innermost
complaint is the one that counts (`Failure.complaint?`), if there is any.

A reader (`DemoTape.Query.Reader`) tries nothing and stops at the first thing that is wrong. An attempt comes to the
`Same` as a reader if both take the same or if its trail tells of the reader's stop. What is needed of the combinators
is little: an attempt either declines right where it stands (`Attempt.Declines`), and then the next alternative counts
(`alternatives_of_declines`), or it has committed itself (`Attempt.Settled`), and then no other counts
(`alternatives_of_settled`).
-/
import DemoTape.Proofs.Query.Reading

namespace DemoTape
namespace Query
set_option autoImplicit false

/-- Why an attempt failed. -/
structure Failure where
  /-- Whether no other alternative is to be tried. -/
  committed : Bool
  /-- The places it came through from the innermost on, as the texts from there, and what is complained of there. -/
  trail : List (List Char × Option Complaint)

namespace Failure

/-- Comes through a further place. -/
def through (place : List Char) (complaint : Option Complaint) (f : Failure) : Failure :=
  { f with trail := f.trail ++ [(place, complaint)] }

def commit (f : Failure) : Failure := { f with committed := true }

/-- The text from the innermost place. -/
def stood? (f : Failure) : Option (List Char) := f.trail.head?.map Prod.fst

/-- The innermost complaint and its place. -/
def complaint? (f : Failure) : Option (List Char × Complaint) :=
  f.trail.findSome? fun (place, complaint) => complaint.map (place, ·)

end Failure

/-- A computation that reads from the front of a text and may be taken back. -/
abbrev Attempt := StateT (List Char) (Except Failure)

namespace Attempt

variable {α β : Type}

/-! ## Combinators -/

def fail : Attempt α := fun text => .error ⟨false, [(text, none)]⟩

/-- Takes one character of a class. -/
def one (p : Char → Bool) : Attempt Char
  | [] => fail []
  | c :: rest => if p c then .ok (c, rest) else fail (c :: rest)

def char (c : Char) : Attempt Unit := (fun _ => ()) <$> one (· = c)

def exactly (letters : List Char) : Attempt Unit := fun text =>
  if letters.isPrefixOf text then .ok ((), text.drop letters.length) else fail text

/-- Takes the characters of a class. -/
def run (p : Char → Bool) : Attempt (List Char) := fun text => .ok (text.takeWhile p, text.dropWhile p)

def ended : Attempt Unit
  | [] => .ok ((), [])
  | text => fail text

/-- Looks ahead. -/
def peek (a : Attempt α) : Attempt α := fun text => (a text).map fun (x, _) => (x, text)

/-- Fails where what was taken stands for nothing. -/
def keep (f : α → Option β) (a : Attempt α) : Attempt β := fun text =>
  match a text with
  | .error failure => .error failure
  | .ok (x, rest) =>
    match f x with
    | some y => .ok (y, rest)
    | none => fail text

/-- Leaves a complaint on the trail. -/
def context (complaint : Complaint) (a : Attempt α) : Attempt α := fun text =>
  (a text).mapError (Failure.through text (some complaint))

/-- Rules out the alternatives. -/
def commit (a : Attempt α) : Attempt α := fun text => (a text).mapError Failure.commit

/-- Leaves a place on the trail of what gives way. -/
def trace (a : Attempt α) : Attempt α := fun text =>
  (a text).mapError fun f => if f.committed then f else f.through text none

/-- Tries one after the other until one commits itself; the last one's failure counts. -/
def inTurn : List (Attempt α) → Attempt α
  | [] => fail
  | [a] => a
  | a :: b :: more => fun text =>
    match a text with
    | .error f => if f.committed then .error f else inTurn (b :: more) text
    | given => given

def alternatives (attempts : List (Attempt α)) : Attempt α := trace (inTurn attempts)

/-- Makes an attempt until it gives way. An attempt that took nothing would go on forever. -/
def many (a : Attempt α) (text : List Char) : Except Failure (List α × List Char) :=
  match a text with
  | .error f => if f.committed then .error f else .ok ([], text)
  | .ok (x, rest) =>
    if rest.length < text.length then (many a rest).map fun (xs, rest) => (x :: xs, rest) else fail text
termination_by text.length

/-- Many in front of an end. -/
def manyThen (a : Attempt α) (closes : Attempt Unit) : Attempt (List α) := do
  let xs ← (many a : Attempt (List α))
  closes
  pure xs

/-- Rules out the alternatives behind a character. -/
def behind (c : Char) (a : Attempt α) : Attempt α := do
  char c
  commit a

def many1 (a : Attempt α) : Attempt (List α) := do
  let first ← trace a
  let later ← (many a : Attempt (List α))
  pure (first :: later)

end Attempt

/-! ## Results -/

section
variable {α β ε δ : Type}

theorem except_map_eq_error {x : Except ε α} {f : α → β} {e : ε} :
    x.map f = .error e ↔ x = .error e := by
  cases x <;> simp [Except.map]

theorem mapError_ok (f : ε → δ) (a : α) : (Except.ok a).mapError f = .ok a := rfl

theorem mapError_error (f : ε → δ) (e : ε) : (Except.error e : Except ε α).mapError f = .error (f e) := rfl

theorem mapError_map (x : Except ε α) (f : α → β) (g : ε → δ) :
    (x.map f).mapError g = (x.mapError g).map f := by
  cases x <;> rfl

theorem mapError_eq_error {x : Except ε α} {f : ε → δ} {e : δ} (failed : x.mapError f = .error e) :
    ∃ d, x = .error d ∧ f d = e := by
  cases x with
  | ok _ => cases failed
  | error d => exact ⟨d, rfl, Except.error.inj failed⟩

theorem bind_apply (a : StateT (List Char) (Except ε) α) (k : α → StateT (List Char) (Except ε) β)
    (text : List Char) : (a >>= k) text = (a text).bind fun given => k given.1 given.2 := rfl

theorem map_apply (f : α → β) (a : StateT (List Char) (Except ε) α) (text : List Char) :
    (f <$> a) text = (a text).map fun given => (f given.1, given.2) := by
  cases given : a text <;> simp [Functor.map, StateT.map, Except.bind, bind, pure, Except.pure, Except.map, given]

end

/-! ## Same results -/

/-- Whether a failure tells of this stop. -/
structure Failure.Tells (f : Failure) (s : Stop) : Prop where
  stood : f.stood? = some s.stood
  complaint : f.complaint? = some (s.place, s.complaint)

/-- Whether an attempt comes to the same as a reader. -/
inductive Same {β : Type} : Except Failure β → Except Stop β → Prop where
  | ok (b : β) : Same (.ok b) (.ok b)
  | error {f : Failure} {s : Stop} (tells : f.Tells s) : Same (.error f) (.error s)

namespace Failure
variable {f : Failure} {s : Stop}

/-- What comes to a trail comes to its end. -/
theorem stood?_through {text : List Char} (stood : f.stood? = some text) (place : List Char)
    (complaint : Option Complaint) : (f.through place complaint).stood? = some text := by
  rw [stood?] at stood ⊢
  cases here : f.trail with
  | nil => simp [here] at stood
  | cons _ _ => simpa [through, here] using stood

theorem complaint?_through (place : List Char) (complaint : Option Complaint) :
    (f.through place complaint).complaint? = f.complaint?.or (complaint.map (place, ·)) := by
  rw [complaint?, complaint?, through, List.findSome?_append]
  cases complaint <;> rfl

namespace Tells

theorem commit (tells : f.Tells s) : f.commit.Tells s := ⟨tells.stood, tells.complaint⟩

theorem through (tells : f.Tells s) (place : List Char) (complaint : Option Complaint) :
    (f.through place complaint).Tells s where
  stood := stood?_through tells.stood place complaint
  complaint := by
    rw [complaint?_through, tells.complaint]
    rfl

end Tells
end Failure

namespace Same
variable {α β : Type} {given : Except Failure α} {taken : Except Stop α}

theorem ok_of_ok {b : α} (same : Same (.ok b) taken) : taken = .ok b := by
  cases same
  rfl

theorem error_of_error {f : Failure} (same : Same (.error f) taken) : ∃ s, taken = .error s ∧ f.Tells s := by
  cases same with
  | error tells => exact ⟨_, rfl, tells⟩

theorem error_iff {s : Stop} : Same given (.error s) ↔ ∃ f, given = .error f ∧ f.Tells s := by
  constructor
  · rintro ⟨⟩
    exact ⟨_, rfl, ‹_›⟩
  · rintro ⟨f, rfl, tells⟩
    exact .error tells

theorem map (same : Same given taken) (f : α → β) : Same (given.map f) (taken.map f) := by
  cases same with
  | ok a => exact .ok (f a)
  | error tells => exact .error tells

theorem mapError (same : Same given taken) {f : Failure → Failure}
    (keeps : ∀ failure s, failure.Tells s → (f failure).Tells s) : Same (given.mapError f) taken := by
  cases same with
  | ok a => exact .ok a
  | error tells => exact .error (keeps _ _ tells)

end Same

namespace Attempt

variable {α β : Type} {a : Attempt α} {r : Reader α} {text mid rest : List Char}

theorem same_bind {k : α → Attempt β} {l : α → Reader β} (first : Same (a text) (r mid))
    (second : ∀ x rest, r mid = .ok (x, rest) → Same (k x rest) (l x rest)) :
    Same ((a >>= k) text) ((r >>= l) mid) := by
  rw [bind_apply, bind_apply]
  generalize a text = given, taken : r mid = found at first
  cases first with
  | ok b => exact second b.1 b.2 taken
  | error tells => exact .error tells

theorem same_map (f : α → β) (same : Same (a text) (r mid)) : Same ((f <$> a) text) ((f <$> r) mid) := by
  rw [map_apply, map_apply]
  exact same.map _

/-- What is complained of further out counts less. -/
theorem same_context {taken : Except Stop (α × List Char)} (complaint : Complaint) (same : Same (a text) taken) :
    Same (context complaint a text) taken :=
  same.mapError fun _ _ tells => tells.through text (some complaint)

theorem same_commit {taken : Except Stop (α × List Char)} (same : Same (a text) taken) :
    Same (commit a text) taken :=
  same.mapError fun _ _ tells => tells.commit

theorem context_commit (complaint : Complaint) (a : Attempt α) :
    context complaint (commit a) = commit (context complaint a) := by
  funext text
  rw [context, commit, commit, context]
  cases a text <;> rfl

/-! ## Choices -/

/-- Whether an attempt gives way where it stands, without a complaint. -/
def Declines (a : Attempt α) (text : List Char) : Prop :=
  ∃ f, a text = .error f ∧ f.committed = false ∧ f.stood? = some text ∧ f.complaint? = none

theorem declines_of_fail (failed : a text = fail text) : Declines a text := ⟨_, failed, rfl, rfl, rfl⟩

theorem declines_map (f : α → β) (declines : Declines a text) : Declines (f <$> a) text := by
  obtain ⟨failure, failed, gone⟩ := declines
  exact ⟨failure, by rw [map_apply, failed]; rfl, gone⟩

theorem declines_bind (k : α → Attempt β) (declines : Declines a text) : Declines (a >>= k) text := by
  obtain ⟨failure, failed, gone⟩ := declines
  exact ⟨failure, by rw [bind_apply, failed]; rfl, gone⟩

/-- An attempt that declines with a complaint tells of a stop right there. -/
theorem same_of_declines {complaint : Complaint} (declines : Declines a text) :
    Same (context complaint a text) (Reader.stop complaint text : Except Stop (α × List Char)) := by
  obtain ⟨f, failed, -, stood, silent⟩ := declines
  rw [context, failed]
  refine .error ⟨f.stood?_through stood _ _, ?_⟩
  rw [f.complaint?_through, silent]
  rfl

/-- Whether an attempt has committed itself to what it comes to. -/
def Settled (a : Attempt α) (text : List Char) : Prop := ∀ f, a text = .error f → f.committed

theorem settled_commit (a : Attempt α) (text : List Char) : Settled (commit a) text := by
  intro f failed
  obtain ⟨_, -, rfl⟩ := mapError_eq_error failed
  rfl

/-- What comes to what a committed attempt comes to has committed itself. -/
theorem settled_of_commit {b : Attempt α} (same : a text = commit b mid) : Settled a text := by
  intro f failed
  rw [same] at failed
  exact settled_commit b mid f failed

theorem settled_of_ok {b : α × List Char} (given : a text = .ok b) : Settled a text := by
  intro f failed
  rw [given] at failed
  cases failed

theorem settled_map {f : α → β} (settled : Settled a text) : Settled (f <$> a) text := by
  intro e failed
  rw [map_apply] at failed
  exact settled e (except_map_eq_error.mp failed)

theorem trace_of_settled (settled : Settled a text) : trace a text = a text := by
  rw [trace]
  cases given : a text with
  | ok b => rfl
  | error f => simp [mapError_error, settled f given]

theorem declines_trace (declines : Declines a text) : Declines (trace a) text := by
  obtain ⟨f, failed, opened, stood, silent⟩ := declines
  refine ⟨f.through text none, ?_, opened, f.stood?_through stood _ _, by rw [f.complaint?_through, silent]; rfl⟩
  simp [trace, failed, mapError_error, opened]

theorem alternatives_of_settled {more : List (Attempt α)} (settled : Settled a text) :
    alternatives (a :: more) text = a text := by
  have first : inTurn (a :: more) text = a text := by
    cases more with
    | nil => rfl
    | cons b more =>
      cases given : a text with
      | ok b => simp [inTurn, given]
      | error f => simp [inTurn, given, settled f given]
  have settled : Settled (inTurn (a :: more)) text := by rwa [Settled, first]
  rw [alternatives, trace_of_settled settled, first]

theorem alternatives_of_declines {b : Attempt α} {more : List (Attempt α)} (declines : Declines a text) :
    alternatives (a :: b :: more) text = alternatives (b :: more) text := by
  obtain ⟨f, failed, opened, -⟩ := declines
  have skipped : inTurn (a :: b :: more) text = inTurn (b :: more) text := by
    simp [inTurn, failed, opened]
  rw [alternatives, alternatives, trace, trace, skipped]

/-- What declines in front of an alternative does not matter. -/
theorem alternatives_append {front back : List (Attempt α)} {b : Attempt α}
    (declines : ∀ a ∈ front, Declines a text) :
    alternatives (front ++ b :: back) text = alternatives (b :: back) text := by
  induction front with
  | nil => rfl
  | cons a front ih =>
    obtain ⟨here, further⟩ := List.forall_mem_cons.mp declines
    rw [← ih further]
    cases front <;> exact alternatives_of_declines here

theorem declines_alternatives (declines : Declines a text) : Declines (alternatives [a]) text :=
  declines_trace declines

/-! ## Single characters and tokens -/

theorem stops_of_not {p : Char → Bool} {c : Char} (other : ¬p c) : Text.Stops p (c :: rest) :=
  Text.stops_cons.mpr (Bool.eq_false_iff.mpr other)

theorem declines_one {p : Char → Bool} (stops : Text.Stops p text) : Declines (one p) text := by
  refine declines_of_fail ?_
  cases text with
  | nil => rfl
  | cons c rest => simp [one, Text.stops_cons.mp stops]

theorem declines_char {c : Char} (other : text.head? ≠ some c) : Declines (char c) text := by
  refine declines_map _ (declines_one fun d mem => ?_)
  simp only [decide_eq_false_iff_not]
  rintro rfl
  exact other mem

theorem char_text (c : Char) : char c (c :: rest) = .ok ((), rest) := by
  simp [char, map_apply, one, Except.map]

theorem char_bind (c : Char) (k : Attempt α) : (do char c; k) (c :: rest) = k rest := by
  rw [bind_apply, char_text]
  rfl

theorem expect_other {c : Char} {complaint : Complaint} (other : text.head? ≠ some c) :
    Reader.expect c complaint text = Reader.stop complaint text := by
  cases text with
  | nil => rfl
  | cons first rest => exact if_neg (by simpa using other)

theorem same_char (c : Char) (complaint : Complaint) (text : List Char) :
    Same (context complaint (char c) text) (Reader.expect c complaint text) := by
  by_cases here : text.head? = some c
  · obtain ⟨rest, rfl⟩ := List.head?_eq_some_iff.mp here
    rw [context, char_text, Reader.expect_text]
    exact .ok _
  · rw [expect_other here]
    exact same_of_declines (declines_char here)

theorem behind_cons (c : Char) (a : Attempt α) : behind c a (c :: rest) = commit a rest := char_bind c _

theorem same_behind {taken : Except Stop (α × List Char)} (c : Char) (same : Same (a rest) taken) :
    Same (behind c a (c :: rest)) taken := by
  rw [behind_cons]
  exact same_commit same

theorem settled_behind (c : Char) (a : Attempt α) (rest : List Char) : Settled (behind c a) (c :: rest) :=
  settled_of_commit (behind_cons c a)

theorem declines_behind {c : Char} (a : Attempt α) (other : text.head? ≠ some c) : Declines (behind c a) text :=
  declines_bind _ (declines_char other)

theorem peek_apply (a : Attempt α) (text : List Char) : peek a text = (a text).map fun given => (given.1, text) := rfl

theorem peek_cons {p : Char → Bool} {c : Char} (goesOn : p c) : peek (one p) (c :: rest) = .ok (c, c :: rest) := by
  simp [peek_apply, one, goesOn, Except.map]

theorem declines_peek (declines : Declines a text) : Declines (peek a) text := by
  obtain ⟨failure, failed, gone⟩ := declines
  exact ⟨failure, by rw [peek_apply, failed]; rfl, gone⟩

/-! ## Repetition -/

/-- What gives way is the end of many, wherever it came to. -/
theorem many_of_open {f : Failure} (failed : a text = .error f) (opened : f.committed = false) :
    many a text = .ok ([], text) := by
  rw [many, failed]
  simp [opened]

theorem many_of_committed {f : Failure} (failed : a text = .error f) (committed : f.committed) :
    many a text = .error f := by
  rw [many, failed]
  simp [committed]

theorem many_of_ok {x : α} (given : a text = .ok (x, rest)) (shorter : rest.length < text.length) :
    many a text = (many a rest).map fun given => (x :: given.1, given.2) := by
  rw [many, given]
  simp [shorter]

/-- What has committed itself is the first of many or fails. -/
theorem many_of_settled (settled : Settled a text)
    (shorter : ∀ x rest, a text = .ok (x, rest) → rest.length < text.length) :
    many a text = (do let x ← a; let xs ← (many a : Attempt (List α)); pure (x :: xs) : Attempt (List α)) text := by
  rw [bind_apply]
  cases given : a text with
  | error f => rw [many_of_committed given (settled f given), Except.bind]
  | ok given' =>
    rw [many_of_ok given (shorter _ _ given)]
    show _ = Except.bind (many a given'.2) _
    cases many a given'.2 <;> rfl

theorem manyThen_of_open {closes : Attempt Unit} {f : Failure} (failed : a text = .error f)
    (opened : f.committed = false) : manyThen a closes text = (do closes; pure [] : Attempt (List α)) text := by
  rw [manyThen, bind_apply, many_of_open failed opened]
  rfl

theorem manyThen_of_committed {closes : Attempt Unit} {f : Failure} (failed : a text = .error f)
    (committed : f.committed) : manyThen a closes text = .error f := by
  rw [manyThen, bind_apply, many_of_committed failed committed]
  rfl

theorem manyThen_of_ok {closes : Attempt Unit} {x : α} (given : a text = .ok (x, rest))
    (shorter : rest.length < text.length) :
    manyThen a closes text = (manyThen a closes rest).map fun given => (x :: given.1, given.2) := by
  rw [manyThen, bind_apply, bind_apply, many_of_ok given shorter]
  cases many a rest with
  | error f => rfl
  | ok further =>
    show (closes >>= fun _ => pure (x :: further.1)) further.2 = ((closes >>= fun _ => pure further.1) further.2).map _
    rw [bind_apply, bind_apply]
    cases closes further.2 <;> rfl

end Attempt
end Query
end DemoTape
