import DiceNotation.Proofs.Roll.Laws

/-!
# Everything in its place

The order of a die is its place among the dice of its specification. Dice that
come out of a chain are first given an order of zero, wherever they are put; a
sort moves dice that have orders; a selection goes through a ranking of its own.
In the end the orders count up from zero again (`InOrder`), since whatever puts
dice in or moves them numbers them afterwards, and whatever does not leaves the
orders alone.

The parts of a result have the orders of their places too, so that every list in
it can be laid out again from the orders alone (`Node.answer_roll_ordered`).
-/

namespace DiceNotation

open Counted

/-! ## Dice in order -/

/-- The order of every die is its place. -/
def InOrder (rolls : List RolledDie) : Prop :=
  ∀ i (hi : i < rolls.length), rolls[i].outcome.order = i

/-- Numbered dice are in order. -/
theorem inOrder_numbered (rolls : List RolledDie) : InOrder (numbered rolls) := by
  intro i hi
  simp [numbered, setOrder, Counted.setOutcome]

/-- Dice that keep their orders where they are stay in order. -/
theorem InOrder.of_forall₂ {rolls rolls' : List RolledDie} (h : InOrder rolls)
    (hsame : List.Forall₂ (fun d d' => d'.outcome.order = d.outcome.order) rolls rolls') :
    InOrder rolls' := by
  intro i hi
  obtain ⟨hi', horder⟩ := getElem_of_forall₂ hsame hi
  exact horder.trans (h i hi')

theorem InOrder.map {rolls : List RolledDie} (h : InOrder rolls) {f : RolledDie → RolledDie}
    (hf : ∀ d, (f d).outcome.order = d.outcome.order) : InOrder (rolls.map f) :=
  h.of_forall₂ (List.forall₂_map_right_iff.2 (List.forall₂_same.2 fun d _ => hf d))

/-! ## Rolling again -/

section Again

variable {kind : DieType} {trigger : Condition Number}

/-- A compounded die keeps its place. -/
theorem gives_compoundDie_order (d : RolledDie) :
    (compoundDie kind trigger d).Gives fun d' => d'.outcome.order = d.outcome.order := by
  rw [compoundDie]
  split
  · exact Rolling.gives_bind fun total => Rolling.gives_pure rfl
  · exact Rolling.gives_pure rfl

/-- **Rolling again** leaves the dice in order: what adds dice numbers all of
them afterwards, and compounding adds none. -/
theorem gives_mechanic_inOrder (mechanic : Mechanic) {rolls : List RolledDie}
    (h : InOrder rolls) : (mechanic.apply kind trigger rolls).Gives InOrder := by
  have hnumbered {m : Rolling (List RolledDie)} :
      (do return numbered (← m) : Rolling (List RolledDie)).Gives InOrder :=
    Rolling.gives_bind fun rolls => Rolling.gives_pure (inOrder_numbered rolls)
  unfold Mechanic.apply
  split
  · exact Rolling.gives_throw _ _
  · cases mechanic with
    | explode | penetrate | reroll | rerollOnce => exact hnumbered
    | compound =>
      intro σ n rolls' d hrolls
      have hsame := Rolling.Gives.forall₂_mapM
        (fun die _ => gives_compoundDie_order die) σ n rolls' d hrolls
      exact h.of_forall₂ hsame

end Again

theorem RolledDie.order_setCritical (mark : Option Critical) (d : RolledDie) :
    (d.setCritical mark).outcome.order = d.outcome.order := by
  rw [setCritical]
  split <;> rfl

theorem diceLaw_inOrder : DiceLaw InOrder where
  rolled kind face n i hi := by
    simp [RolledDie.ofRoll]
  again mechanic _ _ _ h := gives_mechanic_inOrder mechanic h
  changed hchanged h := h.of_forall₂ (hchanged.imp fun _ _ hchange => hchange.order_eq)
  marked condition mark rolls h := by
    refine h.map fun d => ?_
    split
    · exact RolledDie.order_setCritical _ d
    · rfl
  matched faces rolls h := by
    refine h.map fun d => ?_
    split <;> rfl
  sorted order rolls _ := inOrder_numbered _

/-! ## Expressions -/

/-- The result has the order of its place, and the dice in it count up from
zero. -/
structure Result.Ordered (place : Place) (r : Result) : Prop where
  order_eq : r.outcome.order = place.order
  dice : ∀ i (hi : i < r.shape.rolls.length), r.shape.rolls[i].outcome.order = i

/-- **Orders are places.** However dice were rolled, added, sorted and selected,
and however deep, each die of a specification is in the result where its order
says, and so is each member of a group and each term of an expression, the first
one with an order of zero. What stands by itself has an order of zero. -/
theorem Node.answer_roll_ordered (node : Node) {σ : Setting} {n d : Nat} {r : Result}
    (h : node.roll.answer σ n = (.ok r, d)) : r.Everywhere Result.Ordered .apart := by
  have hr := diceLaw_inOrder.obeying_roll node σ n r d h
  exact hr.mono fun _ _ hr => ⟨hr.order_eq, hr.dice⟩

/-- Two dice of which one explodes, laid out from the highest to the lowest, and
added to a group that has a second member. -/
theorem Node.answer_roll_ordered_sorted :
    let dice : Node := .term (.die {
      sides := .numeric (.int 6), count := .int 2,
      mods := [.again .explode none], sort := some .descending }) none
    let group : Node := .term (.group (.int 1) [dice] []) none
    let sum : Node := .sum dice [⟨.add, group⟩]
    let tenths (k : Nat) : Double := .ofRatio false k 10
    let values := [tenths 1, tenths 9, tenths 4, tenths 9, tenths 3, tenths 5]
    ∃ r, sum.roll.answer ⟨.ofList values, 1000⟩ 0 = (.ok r, 6) ∧
      r.Everywhere Result.Ordered .apart := by
  intro dice group sum tenths values
  obtain ⟨r, hr⟩ : ∃ r, sum.roll.answer ⟨.ofList values, 1000⟩ 0 = (.ok r, 6) :=
    Rolling.exists_answer_eq_ok (by decide +kernel)
  exact ⟨r, hr, Node.answer_roll_ordered sum hr⟩

end DiceNotation
