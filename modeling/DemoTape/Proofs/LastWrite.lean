/-
# The last write wins

Writing to a map, one key after the other, is described by the list of what is written: `lastOf` is what the last
write to a key leaves there. `find?_insertAll` ties it to the maps themselves, where a key that is not written
to keeps what it had.
-/
import DemoTape.Scene

namespace DemoTape
set_option autoImplicit false

section LastOf
variable {κ α : Type} [DecidableEq κ]

/-- What the last of some writes to a key wrote. -/
def lastOf (k : κ) (writes : List (κ × α)) : Option α :=
  ((writes.filter (·.1 = k)).getLast?).map Prod.snd

@[simp] theorem lastOf_nil (k : κ) : lastOf k ([] : List (κ × α)) = none := rfl

theorem lastOf_append (k : κ) (earlier later : List (κ × α)) :
    lastOf k (earlier ++ later) = (lastOf k later).or (lastOf k earlier) := by
  unfold lastOf
  rw [List.filter_append, List.getLast?_append]
  cases (later.filter (·.1 = k)).getLast? <;> rfl

@[simp] theorem lastOf_singleton (k : κ) (write : κ × α) :
    lastOf k [write] = if write.1 = k then some write.2 else none := by
  by_cases here : write.1 = k <;> simp [lastOf, here]

/-- What is left at a key was written there. -/
theorem mem_of_lastOf {k : κ} {writes : List (κ × α)} {a : α} (last : lastOf k writes = some a) :
    (k, a) ∈ writes := by
  obtain ⟨⟨k', a'⟩, found, rfl⟩ := Option.map_eq_some_iff.mp last
  obtain ⟨member, here⟩ := List.mem_filter.mp (List.mem_of_getLast? found)
  simp only [decide_eq_true_eq] at here
  exact here ▸ member

end LastOf

namespace SortedMap
variable {κ α : Type} [Ord κ] [Std.TransOrd κ] [Std.LawfulEqOrd κ]

/-- This map after some writes, one after the other. -/
def insertAll (m : SortedMap κ α) (writes : List (κ × α)) : SortedMap κ α :=
  writes.foldl (fun m write => m.insert write.1 write.2) m

@[simp] theorem insertAll_nil (m : SortedMap κ α) : m.insertAll [] = m := rfl

@[simp] theorem insertAll_cons (m : SortedMap κ α) (write : κ × α) (writes : List (κ × α)) :
    m.insertAll (write :: writes) = (m.insert write.1 write.2).insertAll writes := rfl

variable [DecidableEq κ]

theorem find?_insertAll (m : SortedMap κ α) (writes : List (κ × α)) (k : κ) :
    (m.insertAll writes).find? k = (lastOf k writes).or (m.find? k) := by
  induction writes generalizing m with
  | nil => rfl
  | cons write rest ih =>
    rw [insertAll_cons, ih, find?_insert, ← List.singleton_append, lastOf_append, lastOf_singleton, Option.or_assoc]
    by_cases here : k = write.1
    · rw [if_pos here, if_pos here.symm, Option.some_or]
    · rw [if_neg here, if_neg (Ne.symm here), Option.none_or]

end SortedMap

/-- Writing to a string table is writing to its slots. -/
theorem StringTables.write_eq_insertAll (tables : StringTables) (name : String) (entries : List TableEntry) :
    tables.write name entries = tables.insertAll (entries.map fun entry => (⟨name, entry.index⟩, entry.text)) := by
  rw [write, SortedMap.insertAll, List.foldl_map]

end DemoTape
