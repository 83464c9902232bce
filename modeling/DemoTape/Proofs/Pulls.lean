/-
# Pulls

A stream is a state with a function `next`: a pull gives an item, or nothing, and the state after it.
`Pulls.Yields next s items` is all that the pulls tell from outside: the items come one by one in their order,
and every pull after them gives nothing.

A stream yields what a *view* of its state lists, if each pull takes the first item off the view
(`yields_of_view`). So a proof about all pulls needs one fact about a single pull.
-/

namespace DemoTape.Pulls
set_option autoImplicit false

variable {σ α : Type} (next : σ → Option α × σ)

/-- The state after so many pulls. -/
def after : Nat → σ → σ
  | 0, s => s
  | n + 1, s => after n (next s).2

/-- What a pull gives, when so many others come before it. -/
def item (s : σ) (n : Nat) : Option α := (next (after next n s)).1

/-- The pulls give these items in order, and then nothing for ever. -/
def Yields (s : σ) (items : List α) : Prop := ∀ n, item next s n = items[n]?

variable {next}

theorem after_add (m n : Nat) (s : σ) : after next (m + n) s = after next n (after next m s) := by
  induction m generalizing s with
  | zero => rw [Nat.zero_add, after]
  | succ m ih => rw [Nat.succ_add, after, ih, after]

/-- Pulls change nothing once one of them does not. -/
theorem after_of_fixed {s : σ} (fixed : (next s).2 = s) (n : Nat) : after next n s = s := by
  induction n with
  | zero => rfl
  | succ n ih => rw [after, fixed, ih]

/-- A stream yields its view, if each pull takes the first item off it. -/
theorem yields_of_view (view : σ → List α) (first : ∀ s, (next s).1 = (view s).head?)
    (rest : ∀ s, view (next s).2 = (view s).tail) (s : σ) : Yields next s (view s) := by
  intro n
  induction n generalizing s with
  | zero => rw [item, after, first, List.head?_eq_getElem?]
  | succ n ih =>
    have later := ih (next s).2
    rw [rest, List.getElem?_tail] at later
    exact later

/-- What a stream yields is determined. -/
theorem Yields.unique {s : σ} {xs ys : List α} (left : Yields next s xs) (right : Yields next s ys) :
    xs = ys :=
  List.ext_getElem? fun n => (left n).symm.trans (right n)

end DemoTape.Pulls
