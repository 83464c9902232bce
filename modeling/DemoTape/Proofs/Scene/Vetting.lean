/-
# What is let through

The assignments of a message are let through up to the first that is refused. `noted` is what the kinds of a scene
become by the values that are let through: a property keeps the kind that it has, and a property without one gets its
first. `Passes` says that all of some assignments are let through, and it looks at the kinds as they are in the end
(`Agree`), not at the order of the assignments. `Refused` says why one is not let through. Every list of assignments
passes, or has a first that is refused behind those that pass (`passes_or_refused`), and in both cases this is what
vetting them finds (`vetAll_of_passes`, `vetAll_of_refused`).
-/
import DemoTape.Proofs.Scene.Kinds
import Mathlib.Data.List.Forall2

namespace DemoTape
set_option autoImplicit false

/-- The checks that values make which go to properties of a class. -/
def Check.ofWrites (cls : String) (writes : List (String × Value)) : List Check :=
  writes.map fun write => ⟨⟨cls, write.1⟩, write.2.kind⟩

namespace Scene
open Check

/-! ## Kinds that are noted -/

/-- The kinds with that of a check; a property that has a kind keeps it. -/
def note (kinds : Kinds) (check : Check) : Kinds :=
  match kinds.find? check.ref with
  | none => kinds.insert check.ref check.kind
  | some _ => kinds

def noted (kinds : Kinds) (checks : List Check) : Kinds := checks.foldl note kinds

/-- Each check is of the kind that its property has in the end. -/
def Agree (kinds : Kinds) (checks : List Check) : Prop :=
  ∀ check ∈ checks, (noted kinds checks).find? check.ref = some check.kind

variable {kinds : Kinds} {xs ys : List Check}

theorem find?_note (kinds : Kinds) (check : Check) (ref : PropertyRef) :
    (note kinds check).find? ref = (kinds.find? ref).or (first [check] ref) := by
  rw [first_singleton, note]
  by_cases here : check.ref = ref
  · subst here
    cases there : kinds.find? check.ref with
    | none => simp [SortedMap.find?_insert]
    | some kind => exact there
  · cases kinds.find? check.ref with
    | none => simp [SortedMap.find?_insert, here, Ne.symm here]
    | some kind => simp [here]

theorem noted_append (kinds : Kinds) (xs ys : List Check) : noted kinds (xs ++ ys) = noted (noted kinds xs) ys :=
  List.foldl_append

/-- The first check of a property counts, if it has no kind yet. -/
theorem find?_noted (kinds : Kinds) (checks : List Check) (ref : PropertyRef) :
    (noted kinds checks).find? ref = (kinds.find? ref).or (first checks ref) := by
  induction checks generalizing kinds with
  | nil => exact Option.or_none.symm
  | cons check rest ih =>
    change (noted (note kinds check) rest).find? ref = _
    rw [ih, find?_note, Option.or_assoc, ← first_append, List.singleton_append]

/-- What has a kind keeps it. -/
theorem find?_noted_of_some {ref : PropertyRef} {kind : Kind} (there : kinds.find? ref = some kind)
    (checks : List Check) : (noted kinds checks).find? ref = some kind := by
  rw [find?_noted, there, Option.some_or]

theorem agree_nil (kinds : Kinds) : Agree kinds [] := nofun

theorem agree_append : Agree kinds (xs ++ ys) ↔ Agree kinds xs ∧ Agree (noted kinds xs) ys := by
  unfold Agree
  rw [noted_append, List.forall_mem_append]
  refine and_congr_left fun _ => forall₂_congr fun check member => ⟨fun agrees => ?_, fun agrees => ?_⟩
  · -- the property of a check has some kind as soon as the check is made, and keeps it
    obtain ⟨kind, there⟩ : ∃ kind, (noted kinds xs).find? check.ref = some kind := by
      have seen : (first xs check.ref).isSome := by
        simpa [first, List.find?_isSome] using ⟨check, member, rfl⟩
      rw [← Option.isSome_iff_exists, find?_noted, Option.isSome_or, seen, Bool.or_true]
    rw [there, ← agrees, find?_noted_of_some there]
  · exact find?_noted_of_some agrees ys

/-- Checks that agree do so in any order, and leave the same kinds. -/
theorem agree_comm (agree : Agree kinds (xs ++ ys)) :
    Agree kinds (ys ++ xs) ∧ noted kinds (ys ++ xs) = noted kinds (xs ++ ys) := by
  have same : noted kinds (ys ++ xs) = noted kinds (xs ++ ys) := by
    refine SortedMap.ext_find? fun ref => ?_
    rw [find?_noted, find?_noted, first_append, first_append]
    cases there : kinds.find? ref with
    | some kind => rfl
    | none =>
      have seen {checks : List Check} {kind : Kind} (found : first checks ref = some kind)
          (part : ∀ check ∈ checks, check ∈ xs ++ ys) : (noted kinds (xs ++ ys)).find? ref = some kind := by
        obtain ⟨check, here, rfl⟩ := Option.map_eq_some_iff.mp found
        have about : check.ref = ref := by simpa using List.find?_some here
        rw [← about]
        exact agree check (part check (List.mem_of_find?_eq_some here))
      rw [Option.none_or, Option.none_or]
      cases left : first xs ref with
      | none => rw [Option.or_none, Option.none_or]
      | some kind =>
        cases right : first ys ref with
        | none => rfl
        | some kind' =>
          have here := seen left fun _ => List.mem_append_left ys
          have here' := seen right fun _ => List.mem_append_right xs
          exact here'.symm.trans here
  refine ⟨fun check member => ?_, same⟩
  rw [same]
  exact agree check (List.mem_append.mpr (List.mem_append.mp member).symm)

/-! ## One assignment -/

variable {offset : Nat} {tables : StringTables} {cls : String}

theorem admitted_of_agree {ref : PropertyRef} {found : Kind} (agree : Agree kinds [⟨ref, found⟩]) :
    admitted kinds ref found = .ok (noted kinds [⟨ref, found⟩]) := by
  have known := agree _ (List.mem_singleton_self _)
  rw [find?_noted, first_singleton, if_pos rfl] at known
  unfold admitted noted
  rw [List.foldl_cons, List.foldl_nil, note]
  cases there : kinds.find? ref with
  | none => rfl
  | some kind =>
    rw [there, Option.some_or] at known
    exact if_neg fun differs => differs (Option.some.inj known)

/-- Why an assignment is not let through: its slot holds no name, or its value is of another kind than the property
has. -/
inductive Refused (offset : Nat) (tables : StringTables) (kinds : Kinds) (cls : String) : Assignment → Fault → Prop
  | unnamed {index : UInt16} {value : Value} (unwritten : tables.slot? StringTables.propertyNames index = none) :
      Refused offset tables kinds cls ⟨.slot index, value⟩
        (.corrupt offset (.unnamedProperty index StringTables.propertyNames))
  | changed {key : PropertyKey} {value : Value} {name : String} {expected : Kind}
      (called : tables.name? key = some name) (there : kinds.find? ⟨cls, name⟩ = some expected) (change : expected ≠ value.kind) :
      Refused offset tables kinds cls ⟨key, value⟩ (.kindChange cls name expected value.kind)

theorem vetAll_cons_of_refused {assignment : Assignment} {fault : Fault}
    (refused : Refused offset tables kinds cls assignment fault) (rest : List Assignment) :
    vetAll offset tables cls kinds (assignment :: rest) = ⟨[], kinds, some fault⟩ := by
  cases refused with
  | unnamed unwritten => simp only [vetAll, vetted, resolved, unwritten]
  | changed called there change => exact vetAll_refused called (by simp only [admitted, there, if_pos change])

/-- An assignment is let through under some name, or refused. -/
theorem agree_or_refused (offset : Nat) (tables : StringTables) (kinds : Kinds) (cls : String)
    (assignment : Assignment) :
    (∃ name, tables.name? assignment.key = some name ∧ Agree kinds [⟨⟨cls, name⟩, assignment.value.kind⟩]) ∨
      ∃ fault, Refused offset tables kinds cls assignment fault := by
  obtain ⟨key, value⟩ := assignment
  cases called : tables.name? key with
  | none =>
    cases key with
    | name s => cases called
    | slot index => exact .inr ⟨_, .unnamed called⟩
  | some name =>
    by_cases agrees : (noted kinds [⟨⟨cls, name⟩, value.kind⟩]).find? ⟨cls, name⟩ = some value.kind
    · exact .inl ⟨name, rfl, fun check member => by rw [List.mem_singleton.mp member]; exact agrees⟩
    · rw [find?_noted, first_singleton, if_pos rfl] at agrees
      cases there : kinds.find? ⟨cls, name⟩ with
      | none => exact absurd (by rw [there, Option.none_or]) agrees
      | some expected =>
        refine .inr ⟨_, .changed called there fun same => agrees ?_⟩
        rw [there, Option.some_or, same]

/-! ## Assignments that are let through -/

/-- The writes are those of the assignments, under the names that their keys stand for. -/
def Called (tables : StringTables) : List Assignment → List (String × Value) → Prop :=
  List.Forall₂ fun assignment write => tables.name? assignment.key = some write.1 ∧ assignment.value = write.2

/-- Assignments are let through as these writes: their keys stand for the names, and the values are of the kinds that
the properties have in the end. -/
structure Passes (tables : StringTables) (kinds : Kinds) (cls : String) (assignments : List Assignment)
    (writes : List (String × Value)) : Prop where
  called : Called tables assignments writes
  agree : Agree kinds (ofWrites cls writes)

theorem passes_nil (tables : StringTables) (kinds : Kinds) (cls : String) : Passes tables kinds cls [] [] :=
  ⟨.nil, agree_nil kinds⟩

theorem passes_cons {assignment : Assignment} {rest : List Assignment} {write : String × Value}
    {later : List (String × Value)} :
    Passes tables kinds cls (assignment :: rest) (write :: later) ↔
      (tables.name? assignment.key = some write.1 ∧ assignment.value = write.2) ∧
        Agree kinds [⟨⟨cls, write.1⟩, write.2.kind⟩] ∧
        Passes tables (noted kinds [⟨⟨cls, write.1⟩, write.2.kind⟩]) cls rest later := by
  have apart : Agree kinds (ofWrites cls (write :: later)) ↔ Agree kinds [⟨⟨cls, write.1⟩, write.2.kind⟩] ∧
      Agree (noted kinds [⟨⟨cls, write.1⟩, write.2.kind⟩]) (ofWrites cls later) := @agree_append kinds [_] _
  constructor
  · rintro ⟨called, agree⟩
    obtain ⟨here, called⟩ := List.forall₂_cons.mp called
    exact ⟨here, (apart.mp agree).1, called, (apart.mp agree).2⟩
  · rintro ⟨here, agree, called, agree'⟩
    exact ⟨.cons here called, apart.mpr ⟨agree, agree'⟩⟩

/-- All of some assignments are let through, or there is a first that is refused. -/
theorem passes_or_refused (offset : Nat) (tables : StringTables) (kinds : Kinds) (cls : String)
    (assignments : List Assignment) :
    (∃ writes, Passes tables kinds cls assignments writes) ∨
      ∃ front assignment back writes fault, assignments = front ++ assignment :: back ∧
        Passes tables kinds cls front writes ∧
        Refused offset tables (noted kinds (ofWrites cls writes)) cls assignment fault := by
  induction assignments generalizing kinds with
  | nil => exact .inl ⟨[], passes_nil tables kinds cls⟩
  | cons assignment rest ih =>
    rcases agree_or_refused offset tables kinds cls assignment with ⟨name, called, agree⟩ | ⟨fault, refused⟩
    · rcases ih (noted kinds [⟨⟨cls, name⟩, assignment.value.kind⟩]) with
        ⟨writes, passes⟩ | ⟨front, later, back, writes, fault, rfl, passes, refused⟩
      · exact .inl ⟨(name, assignment.value) :: writes, passes_cons.mpr ⟨⟨called, rfl⟩, agree, passes⟩⟩
      · exact .inr ⟨assignment :: front, later, back, (name, assignment.value) :: writes, fault, rfl,
          passes_cons.mpr ⟨⟨called, rfl⟩, agree, passes⟩, refused⟩
    · exact .inr ⟨[], assignment, rest, [], fault, rfl, passes_nil tables kinds cls, refused⟩

/-- What is let through is noted, and the rest is vetted behind it. -/
theorem vetAll_append {front : List Assignment} {writes : List (String × Value)}
    (passes : Passes tables kinds cls front writes) (offset : Nat) (back : List Assignment) :
    vetAll offset tables cls kinds (front ++ back) =
      let later := vetAll offset tables cls (noted kinds (ofWrites cls writes)) back
      { later with passed := writes ++ later.passed } := by
  induction front generalizing kinds writes with
  | nil =>
    obtain rfl := List.forall₂_nil_left_iff.mp passes.called
    rfl
  | cons assignment rest ih =>
    cases writes with
    | nil => cases passes.called
    | cons write writes =>
      obtain ⟨⟨called, value⟩, agree, passes⟩ := passes_cons.mp passes
      rw [List.cons_append, vetAll_passed called (by rw [value]; exact admitted_of_agree agree), ih passes, value]
      rfl

theorem vetAll_of_passes {assignments : List Assignment} {writes : List (String × Value)}
    (passes : Passes tables kinds cls assignments writes) (offset : Nat) :
    vetAll offset tables cls kinds assignments = ⟨writes, noted kinds (ofWrites cls writes), none⟩ := by
  have whole := vetAll_append passes offset []
  rw [List.append_nil] at whole
  rw [whole]
  exact congrArg (Vetting.mk · _ _) (List.append_nil writes)

theorem vetAll_of_refused {front : List Assignment} {assignment : Assignment} {writes : List (String × Value)}
    {fault : Fault} (passes : Passes tables kinds cls front writes)
    (refused : Refused offset tables (noted kinds (ofWrites cls writes)) cls assignment fault)
    (back : List Assignment) :
    vetAll offset tables cls kinds (front ++ assignment :: back) =
      ⟨writes, noted kinds (ofWrites cls writes), some fault⟩ := by
  rw [vetAll_append passes, vetAll_cons_of_refused refused]
  exact congrArg (Vetting.mk · _ _) (List.append_nil writes)

theorem vetAll_sound {assignments : List Assignment} :
    (vetAll offset tables cls kinds assignments).fault = none ↔
      ∃ writes, Passes tables kinds cls assignments writes := by
  constructor
  · intro sound
    rcases passes_or_refused offset tables kinds cls assignments with
      passes | ⟨front, assignment, back, writes, fault, rfl, passes, refused⟩
    · exact passes
    · rw [vetAll_of_refused passes refused] at sound
      cases sound
  · rintro ⟨writes, passes⟩
    rw [vetAll_of_passes passes]

end Scene
end DemoTape
