import DiceNotation.Proofs.Roll.ValueLaws

/-!
# Values add up

The value of a result is stored with it, and modifiers change the dice below it
and the members beside it after it was computed. Still every value is what its
parts make (`Node.answer_roll_consistent`), unless it was turned into a count of
successes: the sum of dice and of members, the fold of terms.

There is one exception. The modifiers of a group with a single member go into
the pool of that member, and its value becomes the sum of the pool, also where
the member subtracts.
-/

namespace DiceNotation

open Counted

/-! ## The law -/

/-- The value is what the parts of the shape make at this place. -/
def Shape.Makes (place : Place) (value : Number) : Shape Result → Prop
  | .number => True
  | .dice _ _ rolls matched => matched = false → value = sumTotals rolls
  | .sum terms ops =>
    terms.length = ops.length + 1 ∧
      (value = leftFold SumOp.apply terms ops ∨
        place.IsSoleMember ∧ value = sumTotals (Result.poolAll terms))
  | .chain terms ops =>
    terms.length = ops.length + 1 ∧ value = leftFold ArithOp.apply terms ops
  | .group members => value = sumTotals members
  | .function fn arg => value = fn.apply arg.value

/-- A result that is no count of successes has the value that its parts make. -/
def Result.Consistent (place : Place) (r : Result) : Prop :=
  r.outcome.success = false → r.shape.Makes place r.value

/-- What holds apart holds at every place. -/
theorem Shape.Makes.anywhere {shape : Shape Result} {value : Number}
    (h : shape.Makes .apart value) (place : Place) : shape.Makes place value := by
  cases shape with
  | sum terms ops =>
    obtain ⟨hlength, h | ⟨⟨i, hi⟩, -⟩⟩ := h
    · exact ⟨hlength, .inl h⟩
    · cases hi
  | number | dice | chain | group | function => exact h

/-- The law of what results are made of holds in each layer. -/
theorem valueLaw_makes : ValueLaw fun place shape value => shape.Makes place value where
  number _ := trivial
  summed _ _ _ _ := rfl
  counted _ _ _ h := by cases h
  sum hlength := ⟨hlength, .inl rfl⟩
  chain hlength := ⟨hlength, rfl⟩
  group _ := rfl
  function _ _ := rfl
  anywhere h := h.anywhere
  changed _ _ _ h := by cases h
  refolded _ hlength h := ⟨hlength.trans h.1, .inl rfl⟩

/-- **The exception**: a sole member has the sum of its pool for a value. -/
theorem admitsPools_makes : AdmitsPools fun place shape value => shape.Makes place value := by
  intro r place hpooled hplace h
  obtain ⟨outcome, shape⟩ := r
  cases shape with
  | dice count sides rolls matched =>
    intro _
    rw [Result.pool]
  | sum terms ops =>
    refine ⟨h.1, .inr ⟨hplace, ?_⟩⟩
    rw [Result.pool]
  | number | chain | group | function => cases hpooled

/-! ## Expressions -/

theorem Node.addsUp_roll (node : Node) :
    node.roll.Gives (Result.Everywhere Result.Consistent .apart) :=
  valueLaw_makes.keeps_roll node (.inl admitsPools_makes)

/-- **Values add up all over a result.** Whatever was rolled, with whatever
modifiers, every part of the result that is no count of successes has the value
that its own parts make: also deep inside counts and sides, and after the
modifiers of groups went into the dice below. -/
theorem Node.answer_roll_consistent (node : Node) {σ : Setting} {n d : Nat} {r : Result}
    (h : node.roll.answer σ n = (.ok r, d)) : r.Everywhere Result.Consistent .apart :=
  node.addsUp_roll σ n r d h

/-- Two dice less one, as the sole member of a group that keeps two of the
three: the case in which a sum is not the fold of its terms. -/
theorem Node.answer_roll_consistent_pool :
    let dice (count : Int64) : Node :=
      .term (.die { sides := .numeric (.int 6), count := .int count }) none
    let group : Node := .term (.group (.sum (dice 2) [⟨.sub, dice 1⟩]) []
      [.select .keep none (.int 2)]) none
    let tenths (k : Nat) : Double := .ofRatio false k 10
    ∃ r, group.roll.answer ⟨.ofList [tenths 9, tenths 3, tenths 1], 1000⟩ 0 = (.ok r, 3) ∧
      r.Everywhere Result.Consistent .apart := by
  intro dice group tenths
  obtain ⟨r, hr⟩ : ∃ r, group.roll.answer
      ⟨.ofList [tenths 9, tenths 3, tenths 1], 1000⟩ 0 = (.ok r, 3) :=
    Rolling.exists_answer_eq_ok (by decide +kernel)
  exact ⟨r, hr, Node.answer_roll_consistent group hr⟩

end DiceNotation
