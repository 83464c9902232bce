/-
# Shortest decimals

The decimal of a number with the fewest digits that read back to it, and of those the nearest. Each grid of
decimals with 1, 2, … 17 digits has two neighbours of the number; the first grid with a neighbour that reads
back decides. Two equally near neighbours are told apart by a `Tie`. Should no grid decide, the exact decimal
expansion of the number stands in. `ofDecimal_decimal` says that what is chosen reads back, for every format,
every finite number of it and either tie.
-/
import DemoTape.Number.Decimal

namespace DemoTape
set_option autoImplicit false

-- powers are those of the core library, whatever else is loaded
attribute [local instance (high)] instPowNat

/-- Which of two equally near decimals is taken. -/
inductive Tie where
  | up
  | toEven
  deriving DecidableEq, Repr

namespace Shortest

/-- The decimal without zeros at its end. -/
def stripZeros : Nat → Decimal → Decimal
  | 0, d => d
  | fuel + 1, d =>
    if d.digits % 10 = 0 then stripZeros fuel ⟨d.digits / 10, d.exponent + 1⟩ else d

/-- Of the neighbours `low` and `low + 1` of `num / den`, the one to take, if any is admitted. -/
def pick (tie : Tie) (admits : Nat → Bool) (num den : Nat) : Option Nat :=
  let low := num / den
  let twice := 2 * (num % den)
  let upper : Bool := match tie with
    | .up => den ≤ twice
    | .toEven => den < twice || (den = twice && low % 2 = 1)
  let near := if upper then low + 1 else low
  let far := if upper then low else low + 1
  if admits near then some near
  else if admits far then some far
  else none

/-- The number on the grid of multiples of `10 ^ exponent`. -/
def onGrid (tie : Tie) (f : FloatFormat) (magnitude num den : Nat) (exponent : Int) : Option Decimal :=
  (pick tie (fun digits => f.ofDecimal ⟨digits, exponent⟩ = magnitude)
    (num * 10 ^ (-exponent).toNat) (den * 10 ^ exponent.toNat)).map fun digits => ⟨digits, exponent⟩

/-- The position of the first digit of `num / den`: it is less than ten to this power, and not less than
ten to the power below. -/
def top (f : FloatFormat) (num den : Nat) : Int :=
  let places := f.depth / 3 + 1
  digitCount (num * 10 ^ places / den) - places

/-- The shortest decimal of a finite magnitude; of zero it is zero. -/
def decimal (tie : Tie) {f : FloatFormat} (x : Binary f) : Decimal :=
  if x.magnitude = 0 then ⟨0, 0⟩
  else
    let num := x.quanta
    let den := 2 ^ f.depth
    let top := top f num den
    let grids := (List.range 17).map fun n => top - (n + 1 : Nat)
    let found := grids.findSome? (onGrid tie f x.magnitude num den)
    let chosen := found.getD ⟨num * 5 ^ f.depth, -(f.depth : Int)⟩
    stripZeros (digitCount chosen.digits) chosen

/-! ## Reading back -/

theorem ofDecimal_stripZeros (f : FloatFormat) (fuel : Nat) (d : Decimal) :
    f.ofDecimal (stripZeros fuel d) = f.ofDecimal d := by
  induction fuel generalizing d with
  | zero => rfl
  | succ fuel ih =>
    unfold stripZeros
    split
    · rename_i whole
      rw [ih, ← f.ofDecimal_shift]
      congr
      omega
    · rfl

theorem pick_admits {tie : Tie} {admits : Nat → Bool} {num den n : Nat}
    (picked : pick tie admits num den = some n) : admits n := by
  have first (near far : Nat)
      (picked : (if admits near then some near else if admits far then some far else none) = some n) :
      admits n := by
    split at picked
    · rename_i good
      rwa [← Option.some.inj picked]
    · split at picked
      · rename_i good
        rwa [← Option.some.inj picked]
      · cases picked
  exact first _ _ picked

theorem ofDecimal_onGrid {tie : Tie} {f : FloatFormat} {magnitude num den : Nat} {exponent : Int} {d : Decimal}
    (found : onGrid tie f magnitude num den exponent = some d) : f.ofDecimal d = magnitude := by
  obtain ⟨digits, picked, rfl⟩ := Option.map_eq_some_iff.mp found
  simpa using pick_admits picked

/-- The exact expansion of a number reads back. -/
theorem ofDecimal_expansion {f : FloatFormat} {x : Binary f} (finite : x.isFinite) :
    f.ofDecimal ⟨x.quanta * 5 ^ f.depth, -(f.depth : Int)⟩ = x.magnitude := by
  have below : x.magnitude < f.infinity := by simpa [Binary.isFinite] using finite
  by_cases zero : x.magnitude = 0
  · have nothing : x.quanta = 0 := Binary.quanta_eq_zero.mpr zero
    simp [FloatFormat.ofDecimal, nothing, zero]
  · have something : x.quanta * 5 ^ f.depth ≠ 0 :=
      Nat.mul_ne_zero (mt Binary.quanta_eq_zero.mp zero) (Nat.ne_of_gt (Nat.pow_pos (by decide)))
    have count : digitCount (x.quanta * 5 ^ f.depth) ≤ 2 * f.depth + 1 := by
      rw [digitCount_le_iff (by omega)]
      calc x.quanta * 5 ^ f.depth < 2 ^ (2 * f.depth + 2) * 5 ^ f.depth :=
            (Nat.mul_lt_mul_right (Nat.pow_pos (by decide))).mpr (Binary.quanta_lt below)
        _ ≤ 2 ^ (2 * f.depth + 1) * 5 ^ (2 * f.depth + 1) := by
            rw [Nat.pow_succ 2, Nat.mul_assoc]
            apply Nat.mul_le_mul_left
            rw [Nat.pow_succ 5, Nat.mul_comm]
            exact Nat.mul_le_mul (Nat.pow_le_pow_right (by decide) (by omega)) (by decide)
        _ = 10 ^ (2 * f.depth + 1) := (Nat.mul_pow 2 5 _).symm
    have value : f.round (x.quanta * 5 ^ f.depth * 10 ^ (-(f.depth : Int)).toNat)
        (10 ^ (- -(f.depth : Int)).toNat) = x.magnitude := by
      have up : (-(f.depth : Int)).toNat = 0 := by omega
      have down : (- -(f.depth : Int)).toNat = f.depth := by omega
      rw [up, down, Nat.pow_zero, Nat.mul_one, Nat.mul_pow 2 5, f.round_scale _ _ (Nat.pow_pos (by decide)),
        Binary.round_quanta (Nat.le_of_lt below)]
    unfold FloatFormat.ofDecimal
    dsimp only
    rw [if_neg (by omega), if_neg (by omega), value]

/-- The shortest decimal of a finite number reads back. -/
theorem ofDecimal_decimal (tie : Tie) {f : FloatFormat} {x : Binary f} (finite : x.isFinite) :
    f.ofDecimal (decimal tie x) = x.magnitude := by
  unfold decimal
  split
  · rename_i zero
    simp [FloatFormat.ofDecimal, zero]
  · rename_i nonzero
    dsimp only
    rw [ofDecimal_stripZeros]
    generalize grid : List.findSome? _ _ = found
    cases found with
    | none => exact ofDecimal_expansion finite
    | some d =>
      obtain ⟨_, _, here⟩ := List.exists_of_findSome?_eq_some grid
      exact ofDecimal_onGrid here

end Shortest
end DemoTape
