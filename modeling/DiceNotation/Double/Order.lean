import DiceNotation.Double.Basic

/-!
# Two orders on doubles

The numeric comparison (`compare?`) knows nothing of a NaN and takes `-0` and
`0` for one number. The total order (`totalRank`) tells all of them apart:
below every number stand the NaNs with the sign set, above every number those
without it, and `-0` comes before `0`.
-/

namespace DiceNotation

namespace Double

/-- The place of a number among the numbers; both zeros have place zero. -/
def rank (x : Double) : Int :=
  if x.isNegative then -x.magnitude else x.magnitude

/-- The numeric comparison; a NaN compares with nothing. -/
def compare? (x y : Double) : Option Ordering :=
  if x.isNaN || y.isNaN then none else some (compare x.rank y.rank)

/-- How two numbers compare that do is how their ranks do. -/
theorem any_compare? (x y : Double) (p : Ordering → Bool) :
    (x.compare? y).any p = (!x.isNaN && !y.isNaN && p (compare x.rank y.rank)) := by
  unfold compare?
  cases x.isNaN <;> cases y.isNaN <;> rfl

/-- Numerically at most. -/
def le (x y : Double) : Bool := (x.compare? y).any Ordering.isLE

theorem le_iff {x y : Double} :
    x.le y ↔ x.isNaN = false ∧ y.isNaN = false ∧ x.rank ≤ y.rank := by
  rw [le, any_compare?, Bool.and_eq_true, Bool.and_eq_true, Int.isLE_compare, and_assoc]
  simp

/-- The place of a double in the total order. -/
def totalRank (x : Double) : Int :=
  if x.isNegative then -x.magnitude - 1 else x.magnitude

/-- Comparison in the total order. -/
def totalCompare (x y : Double) : Ordering := compare x.totalRank y.totalRank

end Double

end DiceNotation
