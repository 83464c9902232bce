/-
# Integers against floats

An integer is compared with a float as the float nearest to it, so what is compared are not always the numbers
themselves. A value that is a number denotes it (`Value.Denotes`), and an integer and a float meet if the float is the
one that the integer is rounded to (`Value.Meets`). Rounding keeps the order, so two values that do not meet are
compared as the numbers that they are (`compare_apart`), and two that meet pass for equal, whatever numbers they are
(`compare_meets`). This says when the order is that of the numbers, and what is left of its laws when it is not
(`compare_numbers`): less than is transitive throughout, but equality is not, since two integers can meet one float.
-/
import DemoTape.Proofs.Number.Rational
import DemoTape.Query

namespace DemoTape
set_option autoImplicit false

-- powers are those of the core library, whatever else is loaded
attribute [local instance (high)] instPowNat

namespace Value
open Binary

/-! ## Numbers and what is compared -/

/-- The number that a value is. A NaN is none. -/
inductive Denotes : Value → Extended → Prop
  | integer (i : Int64) : Denotes (.integer i) (.ofRat i.toInt)
  | float (x : Binary64) (number : x.isNaN = false) : Denotes (.float x) x.number

/-- Whether one is an integer and the other a float that is equal to the float nearest to it. -/
def Meets (a b : Value) : Prop :=
  a.kind ≠ b.kind ∧ a.number?.map Binary.number = b.number?.map Binary.number

variable {a b c : Value} {p q r : Extended}

theorem Denotes.exists_number (denotes : a.Denotes p) : ∃ x, a.number? = some x ∧ x.isNaN = false := by
  cases denotes with
  | integer i => exact ⟨_, rfl, isNaN_of_finite (isFinite_ofInt i)⟩
  | float x number => exact ⟨x, rfl, number⟩

/-- A number is compared as one that it is rounded to. -/
theorem Denotes.rounded (denotes : a.Denotes p) {x : Binary64} (found : a.number? = some x) : x.Rounded p := by
  cases denotes with
  | integer i =>
    cases found
    exact .nearest (nearest_ofInt (isFinite_ofInt i))
  | float x number =>
    cases found
    exact rounded_self x

/-- A number that some float holds is compared as it is. -/
theorem Denotes.number_of_held (denotes : a.Denotes p) (held : Held p) : a.number?.map Binary.number = some p := by
  cases denotes with
  | float x number => rfl
  | integer i =>
    obtain ⟨y, -, value⟩ := held
    obtain ⟨finite, value⟩ := finite_of_number value
    have same := (nearest_ofInt (isFinite_ofInt i)).toRat_eq finite value
    exact congrArg some ((number_of_finite (isFinite_ofInt i)).trans (congrArg _ same))

/-- Of two numbers of different kinds one is a float. -/
theorem held_of_kinds (left : a.Denotes p) (right : b.Denotes q) (kinds : a.kind ≠ b.kind) : Held p ∨ Held q := by
  cases left with
  | float x number => exact .inl ⟨x, number, rfl⟩
  | integer i => cases right with
    | float y number => exact .inr ⟨y, number, rfl⟩
    | integer j => exact absurd rfl kinds

/-! ## The order of two numbers -/

theorem compare_integer (i j : Int64) : Ord.compare i j = cmp (Extended.ofRat i.toInt) (.ofRat j.toInt) := by
  have less (i j : Int64) : i < j ↔ Extended.ofRat i.toInt < .ofRat j.toInt := by
    rw [Extended.ofRat_lt_ofRat, Int.cast_lt, Int64.lt_iff_toInt_lt]
  have equal : i = j ↔ Extended.ofRat i.toInt = .ofRat j.toInt := by
    rw [Extended.ofRat_inj, Int.cast_inj, Int64.toInt_inj]
  rw [cmp_eq_compareOfLessAndEq]
  change compareOfLessAndEq i j = _
  unfold compareOfLessAndEq
  simp only [less, equal]

/-- Two numbers of one kind are compared as such. -/
theorem compare_same (left : a.Denotes p) (right : b.Denotes q) (kinds : a.kind = b.kind) :
    a.compare b = some (cmp p q) := by
  cases left with
  | integer i => cases right with
    | integer j => exact congrArg some (compare_integer i j)
    | float y number => cases kinds
  | float x number => cases right with
    | integer j => cases kinds
    | float y number' => exact compare_eq_cmp (by decide) number number'

/-- Two numbers of different kinds are compared as floats. -/
theorem compare_mixed (left : a.Denotes p) (right : b.Denotes q) (kinds : a.kind ≠ b.kind) {x y : Binary64}
    (first : a.number? = some x) (second : b.number? = some y) : a.compare b = some (cmp x.number y.number) := by
  obtain ⟨_, found, number⟩ := left.exists_number
  obtain rfl := Option.some.inj (found.symm.trans first)
  obtain ⟨_, found', number'⟩ := right.exists_number
  obtain rfl := Option.some.inj (found'.symm.trans second)
  rw [← compare_eq_cmp (by decide) number number']
  cases left with
  | integer i => cases right with
    | integer j => exact absurd rfl kinds
    | float y number => simp only [compare, first, second, Option.bind_eq_bind, Option.bind_some]
  | float x number => cases right with
    | integer j => simp only [compare, first, second, Option.bind_eq_bind, Option.bind_some]
    | float y number' => exact absurd rfl kinds

theorem Meets.symm (meets : a.Meets b) : b.Meets a := ⟨meets.1.symm, meets.2.symm⟩

/-- Two numbers of different kinds that are the same meet. -/
theorem meets_of_eq (left : a.Denotes p) (right : b.Denotes p) (kinds : a.kind ≠ b.kind) : a.Meets b := by
  have held : Held p := (held_of_kinds left right kinds).elim id id
  exact ⟨kinds, (left.number_of_held held).trans (right.number_of_held held).symm⟩

/-- What is compared as less is less. -/
theorem lt_of_number_lt (left : a.Denotes p) (right : b.Denotes q) (apart : ¬ a.Meets b) (kinds : a.kind ≠ b.kind)
    {x y : Binary64} (first : a.number? = some x) (second : b.number? = some y) (less : x.number < y.number) :
    p < q := by
  rcases lt_trichotomy p q with lower | rfl | higher
  · exact lower
  · exact absurd (meets_of_eq left right kinds) apart
  · exact absurd less (not_lt_of_ge ((right.rounded second).mono (left.rounded first) higher))

/-- Two numbers that do not meet are compared as such. -/
theorem compare_apart (left : a.Denotes p) (right : b.Denotes q) (apart : ¬ a.Meets b) :
    a.compare b = some (cmp p q) := by
  by_cases kinds : a.kind = b.kind
  · exact compare_same left right kinds
  obtain ⟨x, first, -⟩ := left.exists_number
  obtain ⟨y, second, -⟩ := right.exists_number
  have differ : x.number ≠ y.number := fun same =>
    apart ⟨kinds, by rw [first, second, Option.map_some, Option.map_some, same]⟩
  rw [compare_mixed left right kinds first second]
  rcases lt_or_gt_of_ne differ with less | more
  · have lower := lt_of_number_lt left right apart kinds first second less
    rw [(cmp_eq_lt_iff _ _).mpr less, (cmp_eq_lt_iff _ _).mpr lower]
  · have higher := lt_of_number_lt right left (fun meets => apart meets.symm) (Ne.symm kinds) second first more
    rw [(cmp_eq_gt_iff _ _).mpr more, (cmp_eq_gt_iff _ _).mpr higher]

/-- Two numbers that meet pass for equal. -/
theorem compare_meets (left : a.Denotes p) (right : b.Denotes q) (meets : a.Meets b) : a.compare b = some .eq := by
  obtain ⟨kinds, same⟩ := meets
  obtain ⟨x, first, -⟩ := left.exists_number
  obtain ⟨y, second, -⟩ := right.exists_number
  rw [first, second, Option.map_some, Option.map_some, Option.some.injEq] at same
  rw [compare_mixed left right kinds first second, same, cmp_self_eq_eq]

/-- The comparison is exact but where different numbers meet. -/
theorem compare_exact_iff (left : a.Denotes p) (right : b.Denotes q) :
    a.compare b = some (cmp p q) ↔ (a.Meets b → p = q) := by
  by_cases meets : a.Meets b
  · rw [compare_meets left right meets, Option.some.injEq, eq_comm, cmp_eq_eq_iff]
    exact ⟨fun same _ => same, fun same => same meets⟩
  · exact iff_of_true (compare_apart left right meets) fun met => absurd met meets

theorem compare_swap (left : a.Denotes p) (right : b.Denotes q) :
    b.compare a = (a.compare b).map Ordering.swap := by
  by_cases meets : a.Meets b
  · rw [compare_meets left right meets, compare_meets right left meets.symm]
    rfl
  · rw [compare_apart left right meets, compare_apart right left fun met => meets met.symm, Option.map_some,
      cmp_swap]

theorem compare_eq_lt (left : a.Denotes p) (right : b.Denotes q) :
    a.compare b = some .lt ↔ p < q ∧ ¬ a.Meets b := by
  by_cases meets : a.Meets b
  · simp [compare_meets left right meets, meets]
  · rw [compare_apart left right meets, Option.some.injEq, cmp_eq_lt_iff]
    exact ⟨fun less => ⟨less, meets⟩, And.left⟩

/-- To be less is transitive, although to be equal is not. -/
theorem compare_lt_trans (first : a.Denotes p) (second : b.Denotes q) (third : c.Denotes r)
    (less : a.compare b = some .lt) (next : b.compare c = some .lt) : a.compare c = some .lt := by
  obtain ⟨low, apart⟩ := (compare_eq_lt first second).mp less
  obtain ⟨high, apart'⟩ := (compare_eq_lt second third).mp next
  refine (compare_eq_lt first third).mpr ⟨low.trans high, ?_⟩
  rintro ⟨kinds, same⟩
  obtain ⟨x, numberA, -⟩ := first.exists_number
  obtain ⟨y, numberB, -⟩ := second.exists_number
  obtain ⟨z, numberC, -⟩ := third.exists_number
  simp only [Meets, numberA, numberB, numberC, Option.map_some, Option.some.injEq, not_and] at same apart apart'
  -- the one in the middle would be squeezed between the two, and it is of another kind than one of them
  have between : y.number = x.number :=
    le_antisymm (same ▸ (second.rounded numberB).mono (third.rounded numberC) high)
      ((first.rounded numberA).mono (second.rounded numberB) low)
  by_cases kind : a.kind = b.kind
  · exact apart' (kind ▸ kinds) (between.trans same)
  · exact apart kind between.symm

/-- Numbers that floats hold meet only if they are the same. -/
theorem Meets.eq_of_held (meets : a.Meets b) (left : a.Denotes p) (right : b.Denotes q) (here : Held p)
    (there : Held q) : p = q := by
  have equal := meets.2
  rw [left.number_of_held here, right.number_of_held there] at equal
  exact Option.some.inj equal

/-- A predicate on numbers is decided by their order alone. -/
theorem holds_of_compare (left : a.Denotes p) {order : Ordering} (compared : a.compare b = some order)
    (comparison : Comparison) : comparison.holds a b = comparison.admits order := by
  rw [Comparison.holds, compared, Option.any_some]
  cases left <;> rfl

theorem at_most : some (cmp p q) ≠ some .gt ↔ p ≤ q := by
  rw [ne_eq, Option.some.injEq, cmp_eq_gt_iff, not_lt]

/-- **Numbers are compared exactly, unless an integer meets a float that is not its equal.** Two that meet pass
for equal. Both ways of comparing agree, a predicate holds of a property exactly if it holds of the numbers
wherever the comparison is exact, to be less is transitive, and among the numbers that some float holds the
order is that of the numbers throughout. -/
theorem compare_numbers (first : a.Denotes p) (second : b.Denotes q) (third : c.Denotes r) :
    (a.compare b = some (cmp p q) ↔ (a.Meets b → p = q)) ∧
    (a.Meets b → a.compare b = some .eq) ∧
    b.compare a = (a.compare b).map Ordering.swap ∧
    (∀ comparison : Comparison, (a.Meets b → p = q) → comparison.holds a b = comparison.admits (cmp p q)) ∧
    (a.compare b = some .lt → b.compare c = some .lt → a.compare c = some .lt) ∧
    (Held p → Held q → Held r →
      a.compare b = some (cmp p q) ∧
      (a.compare b ≠ some .gt → b.compare c ≠ some .gt → a.compare c ≠ some .gt)) := by
  refine ⟨compare_exact_iff first second, compare_meets first second, compare_swap first second, ?_,
    compare_lt_trans first second third, ?_⟩
  · intro comparison exact_numbers
    exact holds_of_compare first ((compare_exact_iff first second).mpr exact_numbers) comparison
  · intro heldP heldQ heldR
    have ab := (compare_exact_iff first second).mpr fun meets => meets.eq_of_held first second heldP heldQ
    have bc := (compare_exact_iff second third).mpr fun meets => meets.eq_of_held second third heldQ heldR
    have ac := (compare_exact_iff first third).mpr fun meets => meets.eq_of_held first third heldP heldR
    rw [ab, bc, ac, at_most, at_most, at_most]
    exact ⟨rfl, le_trans⟩

/-! ## The first integer that no float holds -/

/-- The number `2 ^ 53` as a float. -/
def edge : Binary64 := Binary.ofWord .double 0x4340000000000000

theorem edge_denotes : (Value.float edge).Denotes (.ofRat (9007199254740992 : Int)) :=
  (show edge.number = .ofRat (9007199254740992 : Int) by decide +kernel) ▸ .float edge rfl

/-- The integer after this float passes for equal to it, and the float is still greater than a small integer. -/
theorem compare_numbers_edge :
    (Value.integer 9007199254740993).compare (.float edge) = some .eq ∧
    (Value.float edge).compare (.integer (-5)) = some .gt ∧
    Comparison.greater.holds (.float edge) (.integer (-5)) := by
  have meets : (Value.integer 9007199254740993).Meets (.float edge) := ⟨by decide, by decide +kernel⟩
  obtain ⟨-, pass, -⟩ := compare_numbers (.integer 9007199254740993) edge_denotes (.integer (-5))
  obtain ⟨exact_iff, -, -, predicate, -, held⟩ := compare_numbers edge_denotes (.integer (-5)) (.integer (-5))
  have small : Held (.ofRat (Int64.toInt (-5))) := held_of_small (by decide)
  have order : cmp (Extended.ofRat (9007199254740992 : Int)) (.ofRat (Int64.toInt (-5))) = .gt := by decide +kernel
  have compared := (held (held_of_small (by decide)) small small).1
  refine ⟨pass meets, compared.trans (congrArg some order), ?_⟩
  rw [predicate .greater (exact_iff.mp compared), order]
  rfl

/-- Two integers, one after the other, pass for equal to one float, and a predicate finds the float by the
integer that it is not. -/
theorem compare_inexact_edge :
    edge.number = .ofRat (9007199254740992 : Int) ∧
    cmp (Extended.ofRat (9007199254740993 : Int)) edge.number = .gt ∧
    (Value.integer 9007199254740993).compare (.float edge) = some .eq ∧
    (Value.float edge).compare (.integer 9007199254740992) = some .eq ∧
    (Value.integer 9007199254740993).compare (.integer 9007199254740992) = some .gt ∧
    Comparison.equal.holds (.float edge) (.integer 9007199254740993) := by
  decide +kernel

end Value
end DemoTape
