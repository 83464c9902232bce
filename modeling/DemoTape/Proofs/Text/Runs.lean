/-
# Runs of characters

A run of a class of characters is taken as far as it goes, so it is taken back out of a text when what follows
does not go on with the class.
-/

namespace DemoTape.Text
set_option autoImplicit false

/-- Whether a text does not go on with a character of this class. -/
def Stops (p : Char → Bool) (rest : List Char) : Prop := ∀ c ∈ rest.head?, p c = false

variable {p : Char → Bool} {run rest : List Char}

@[simp]
theorem stops_nil : Stops p [] := nofun

@[simp]
theorem stops_cons {c : Char} : Stops p (c :: rest) ↔ p c = false := by
  simp [Stops]

theorem takeWhile_of_stops (all : ∀ c ∈ run, p c) (stops : Stops p rest) : (run ++ rest).takeWhile p = run := by
  induction run with
  | nil =>
    cases rest with
    | nil => rfl
    | cons c rest => exact List.takeWhile_cons_of_neg (by simp [stops_cons.mp stops])
  | cons c run ih =>
    obtain ⟨here, further⟩ := List.forall_mem_cons.mp all
    rw [List.cons_append, List.takeWhile_cons_of_pos here, ih further]

theorem dropWhile_of_stops (all : ∀ c ∈ run, p c) (stops : Stops p rest) : (run ++ rest).dropWhile p = rest := by
  have both := List.takeWhile_append_dropWhile (p := p) (l := run ++ rest)
  rw [takeWhile_of_stops all stops] at both
  exact List.append_cancel_left both

end DemoTape.Text
