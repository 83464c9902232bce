/-
# Sorted maps

A map is the list of its entries in strictly ascending order of their keys. So maps with the same content are
equal (`ext_find?`), and everything that goes through a map goes in the order of its keys.

`insert`, `modify` and `erase` are described by what `find?` then finds.
-/

namespace DemoTape
set_option autoImplicit false

structure SortedMap (κ α : Type) [Ord κ] where
  entries : List (κ × α)
  ascending : entries.Pairwise fun a b => compare a.1 b.1 = .lt

namespace SortedMap
variable {κ α : Type} [Ord κ]

instance [DecidableEq κ] [DecidableEq α] : DecidableEq (SortedMap κ α) := fun m n =>
  decidable_of_iff (m.entries = n.entries) (by cases m; cases n; simp)

instance [Repr κ] [Repr α] : Repr (SortedMap κ α) := ⟨fun m => reprPrec m.entries⟩

def empty : SortedMap κ α := ⟨[], .nil⟩

instance : EmptyCollection (SortedMap κ α) := ⟨empty⟩
instance : Inhabited (SortedMap κ α) := ⟨empty⟩

def singleton (k : κ) (a : α) : SortedMap κ α := ⟨[(k, a)], List.pairwise_singleton _ _⟩

def size (m : SortedMap κ α) : Nat := m.entries.length

/-! ## Entries -/

namespace Entries

def find? (k : κ) : List (κ × α) → Option α
  | [] => none
  | (k', a) :: rest => if compare k k' = .eq then some a else find? k rest

def insert (k : κ) (a : α) : List (κ × α) → List (κ × α)
  | [] => [(k, a)]
  | (k', a') :: rest =>
    match compare k k' with
    | .lt => (k, a) :: (k', a') :: rest
    | .eq => (k, a) :: rest
    | .gt => (k', a') :: insert k a rest

def erase (k : κ) : List (κ × α) → List (κ × α)
  | [] => []
  | (k', a) :: rest => if compare k k' = .eq then erase k rest else (k', a) :: erase k rest

/-- What is stored under a key, changed in place. -/
def modify (k : κ) (f : α → α) (entries : List (κ × α)) : List (κ × α) :=
  entries.map fun entry => if compare k entry.1 = .eq then (entry.1, f entry.2) else entry

theorem key_modify (k : κ) (f : α → α) (entry : κ × α) :
    (if compare k entry.1 = .eq then (entry.1, f entry.2) else entry).1 = entry.1 := by
  split <;> rfl

theorem erase_sublist (k : κ) (entries : List (κ × α)) : (erase k entries).Sublist entries := by
  induction entries with
  | nil => exact .slnil
  | cons head rest ih =>
    simp only [erase]
    split
    · exact ih.cons _
    · exact ih.cons_cons _

theorem mem_insert {k : κ} {a : α} {entries : List (κ × α)} {entry : κ × α}
    (member : entry ∈ insert k a entries) : entry = (k, a) ∨ entry ∈ entries := by
  induction entries with
  | nil => simpa [insert] using member
  | cons head rest ih =>
    simp only [insert] at member
    split at member <;> simp only [List.mem_cons] at member ⊢
    · exact member
    · exact member.imp_right .inr
    · rcases member with rfl | member
      · exact .inr (.inl rfl)
      · exact (ih member).imp_right .inr

variable [Std.TransOrd κ] [Std.LawfulEqOrd κ]

theorem ascending_insert {k : κ} {a : α} {entries : List (κ × α)}
    (ascending : entries.Pairwise fun a b => compare a.1 b.1 = .lt) :
    (insert k a entries).Pairwise fun a b => compare a.1 b.1 = .lt := by
  induction entries with
  | nil => exact List.pairwise_singleton _ _
  | cons head rest ih =>
    obtain ⟨below, ascending⟩ := List.pairwise_cons.mp ascending
    simp only [insert]
    split
    case h_1 less =>
      refine List.pairwise_cons.mpr ⟨fun entry member => ?_, List.pairwise_cons.mpr ⟨below, ascending⟩⟩
      rcases List.mem_cons.mp member with rfl | member
      · exact less
      · exact Std.TransCmp.lt_trans less (below entry member)
    case h_2 equal =>
      rw [Std.LawfulEqOrd.eq_of_compare equal]
      exact List.pairwise_cons.mpr ⟨below, ascending⟩
    case h_3 greater =>
      refine List.pairwise_cons.mpr ⟨fun entry member => ?_, ih ascending⟩
      rcases mem_insert member with rfl | member
      · exact Std.OrientedCmp.lt_of_gt greater
      · exact below entry member

theorem find?_insert {k k' : κ} {a : α} {entries : List (κ × α)}
    (ascending : entries.Pairwise fun a b => compare a.1 b.1 = .lt) :
    find? k' (insert k a entries) = if compare k' k = .eq then some a else find? k' entries := by
  induction entries with
  | nil => rfl
  | cons head rest ih =>
    obtain ⟨below, ascending⟩ := List.pairwise_cons.mp ascending
    simp only [insert]
    split
    case h_1 => simp only [find?]
    case h_2 equal =>
      rw [Std.LawfulEqOrd.eq_of_compare equal]
      simp only [find?]
      split <;> rfl
    case h_3 greater =>
      simp only [find?, ih ascending]
      split
      case isTrue equal =>
        rw [Std.LawfulEqOrd.eq_of_compare equal, Std.OrientedCmp.lt_of_gt greater]
        rfl
      case isFalse => rfl

end Entries

/-! ## Operations -/

def find? (m : SortedMap κ α) (k : κ) : Option α := Entries.find? k m.entries

def insert [Std.TransOrd κ] [Std.LawfulEqOrd κ] (m : SortedMap κ α) (k : κ) (a : α) : SortedMap κ α :=
  ⟨Entries.insert k a m.entries, Entries.ascending_insert m.ascending⟩

def modify (m : SortedMap κ α) (k : κ) (f : α → α) : SortedMap κ α :=
  ⟨Entries.modify k f m.entries, List.pairwise_map.mpr (by simpa only [Entries.key_modify] using m.ascending)⟩

def erase (m : SortedMap κ α) (k : κ) : SortedMap κ α :=
  ⟨Entries.erase k m.entries, m.ascending.sublist (Entries.erase_sublist k m.entries)⟩

/-- The map with these entries; of two with the same key the later one counts. -/
def ofList [Std.TransOrd κ] [Std.LawfulEqOrd κ] (entries : List (κ × α)) : SortedMap κ α :=
  entries.foldl (fun m entry => m.insert entry.1 entry.2) ∅

/-- Whether two maps have the same keys with related values. -/
def sameBy [DecidableEq κ] (same : α → α → Bool) (m n : SortedMap κ α) : Bool :=
  m.entries.map Prod.fst = n.entries.map Prod.fst &&
    (m.entries.zip n.entries).all fun pair => same pair.1.2 pair.2.2

/-! ## Laws -/

theorem entries_inj {m n : SortedMap κ α} : m.entries = n.entries ↔ m = n := by
  cases m; cases n; simp

@[simp] theorem find?_empty (k : κ) : (∅ : SortedMap κ α).find? k = none := rfl

variable [Std.LawfulEqOrd κ] [DecidableEq κ]

theorem find?_modify (m : SortedMap κ α) (k k' : κ) (f : α → α) :
    (m.modify k f).find? k' = if k' = k then (m.find? k).map f else m.find? k' := by
  simp only [find?, modify, Entries.modify]
  induction m.entries with
  | nil => simp [Entries.find?]
  | cons head rest ih =>
    rw [List.map_cons, Entries.find?, Entries.find?, Entries.find?, Entries.key_modify, ih]
    simp only [Std.LawfulEqOrd.compare_eq_iff_eq]
    by_cases same : k' = k
    · rw [same]
      by_cases here : k = head.1 <;> simp [here]
    · by_cases here : k' = head.1
      · have elsewhere : k ≠ head.1 := fun there => same (here.trans there.symm)
        simp [here, elsewhere, elsewhere.symm]
      · simp [here, same]

theorem find?_erase (m : SortedMap κ α) (k k' : κ) :
    (m.erase k).find? k' = if k' = k then none else m.find? k' := by
  simp only [find?, erase]
  induction m.entries with
  | nil => simp [Entries.find?, Entries.erase]
  | cons head rest ih =>
    simp only [Entries.erase, Entries.find?, Std.LawfulEqOrd.compare_eq_iff_eq]
    by_cases same : k = head.1
    · rw [if_pos same, ih, ← same]
      split <;> rfl
    · rw [if_neg same, Entries.find?, ih]
      simp only [Std.LawfulEqOrd.compare_eq_iff_eq]
      by_cases here : k' = head.1
      · rw [if_pos here, if_pos here, if_neg (fun equal => same (equal.symm.trans here))]
      · rw [if_neg here, if_neg here]

theorem entries_erase (m : SortedMap κ α) (k : κ) : (m.erase k).entries = m.entries.filter (·.1 ≠ k) := by
  simp only [erase]
  induction m.entries with
  | nil => rfl
  | cons head rest ih =>
    simp only [Entries.erase, Std.LawfulEqOrd.compare_eq_iff_eq, List.filter_cons, ih, ne_comm (a := head.1)]
    by_cases same : k = head.1 <;> simp [same]

theorem mem_entries_iff (m : SortedMap κ α) (k : κ) (a : α) : (k, a) ∈ m.entries ↔ m.find? k = some a := by
  obtain ⟨entries, ascending⟩ := m
  simp only [find?]
  induction entries with
  | nil => simp [Entries.find?]
  | cons head rest ih =>
    obtain ⟨k', a'⟩ := head
    obtain ⟨below, ascending⟩ := List.pairwise_cons.mp ascending
    simp only [List.mem_cons, Entries.find?, Std.LawfulEqOrd.compare_eq_iff_eq]
    by_cases same : k = k'
    · subst same
      have absent : (k, a) ∉ rest := fun there => by
        have := below _ there
        simp [Std.ReflCmp.compare_self] at this
      simp [absent, eq_comm]
    · simp [same, ih ascending]

/-- A key has one entry at most. -/
theorem filter_key (m : SortedMap κ α) (k : κ) :
    (m.entries.filter fun entry => entry.1 = k) = (m.find? k).toList.map (k, ·) := by
  obtain ⟨entries, ascending⟩ := m
  simp only [find?]
  induction entries with
  | nil => rfl
  | cons head rest ih =>
    obtain ⟨below, ascending⟩ := List.pairwise_cons.mp ascending
    simp only [List.filter_cons, Entries.find?, Std.LawfulEqOrd.compare_eq_iff_eq, decide_eq_true_eq]
    by_cases same : k = head.1
    · have none_left : (rest.filter fun entry => entry.1 = k) = [] := by
        refine List.filter_eq_nil_iff.mpr fun entry mem equal => ?_
        have less := below entry mem
        simp [of_decide_eq_true equal, same, Std.ReflCmp.compare_self] at less
      subst same
      simp [none_left]
    · rw [if_neg (Ne.symm same), if_neg same, ih ascending]

variable [Std.TransOrd κ]

theorem find?_insert (m : SortedMap κ α) (k k' : κ) (a : α) :
    (m.insert k a).find? k' = if k' = k then some a else m.find? k' := by
  simp only [find?, insert, Entries.find?_insert m.ascending, Std.LawfulEqOrd.compare_eq_iff_eq]

/-- Maps with the same content are equal. -/
theorem ext_find? {m n : SortedMap κ α} (same : ∀ k, m.find? k = n.find? k) : m = n := by
  have members (entry : κ × α) : entry ∈ m.entries ↔ entry ∈ n.entries := by
    rw [mem_entries_iff m entry.1 entry.2, mem_entries_iff n entry.1 entry.2, same]
  have nodup (l : SortedMap κ α) : l.entries.Nodup :=
    l.ascending.imp fun less equal => by simp [equal, Std.ReflCmp.compare_self] at less
  have perm : m.entries.Perm n.entries := (List.perm_ext_iff_of_nodup (nodup m) (nodup n)).mpr members
  refine entries_inj.mp (perm.eq_of_pairwise (fun a b _ _ less greater => ?_) m.ascending n.ascending)
  rw [Std.OrientedCmp.gt_of_lt less] at greater
  exact absurd greater (by decide)

end SortedMap
end DemoTape
