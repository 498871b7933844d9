import DiceNotation.Proofs.Roll.Layout
import DiceNotation.Proofs.Roll.Running

/-!
# Dice that are rolled again

All mechanics do the same few things to single dice: they roll new ones, mark
the old ones, set faces and totals, and number what lies there in the end. A
law about one die that these keep (`DieLaw`) holds of every die after any of
the mechanics, if it held of every die before.

A law may also be about the faces that the values of one supply give on dice of
one kind, and hold only as long as some mechanics are not used (`KindLaw`).
-/

namespace DiceNotation

open Counted

/-- A law about one die that rolling and rolling again keep. -/
structure DieLaw (Q : RolledDie → Prop) : Prop where
  rolled : ∀ (kind : DieType) (roll : Int64) (order : Nat), Q (.ofRoll kind roll order)
  exploded : ∀ {d : RolledDie}, Q d → Q { d with exploded := true }
  setRoll : ∀ {d : RolledDie}, Q d → ∀ roll, Q (d.setRoll roll)
  setTotal : ∀ {d : RolledDie}, Q d → ∀ total, Q (d.setTotal total)
  replaced : ∀ {d : RolledDie}, Q d → Q d.replaced
  setOrder : ∀ {d : RolledDie}, Q d → ∀ order, Q (setOrder order d)

/-- A law about one die of a kind that is kept when such dice are rolled with the values
of the supply, and when the mechanics in use roll them again. -/
structure KindLaw (σ : Setting) (kind : DieType) (uses : Mechanic → Prop) (Q : RolledDie → Prop) :
    Prop where
  rolled : ∀ n < σ.supply.limit, ∀ order, Q (.ofRoll kind (kind.face (σ.supply.value n)) order)
  penetrated : uses .penetrate → ∀ n < σ.supply.limit,
    Q ((RolledDie.ofRoll kind (kind.face (σ.supply.value n)) 0).setRoll
      (kind.face (σ.supply.value n) - 1))
  exploded : ∀ {d : RolledDie}, Q d → Q { d with exploded := true }
  setTotal : uses .compound → ∀ {d : RolledDie}, Q d → ∀ total, Q (d.setTotal total)
  replaced : ∀ {d : RolledDie}, Q d → Q d.replaced
  setOrder : ∀ {d : RolledDie}, Q d → ∀ order, Q (setOrder order d)

/-- No penalty leaves a new die as it is. -/
theorem RolledDie.setRoll_ofRoll_sub_zero (kind : DieType) (face : Int64) (order : Nat) :
    (RolledDie.ofRoll kind face order).setRoll (face - 0) = .ofRoll kind face order := by
  rw [Int64.sub_zero]
  rfl

namespace KindLaw

variable {Q : RolledDie → Prop} {σ : Setting} {kind : DieType} {uses : Mechanic → Prop}
  (hQ : KindLaw σ kind uses Q) {trigger : Condition Number}

include hQ

theorem givesAt_roll (order : Nat) : (kind.roll order).GivesAt σ Q := by
  intro n d e h
  obtain ⟨hn, -, rfl⟩ := Rolling.answer_roll_eq_ok h
  exact hQ.rolled n hn order

/-- Dice that are rolled obey the law. -/
theorem givesAt_rollMany (k : Nat) : (kind.rollMany k).GivesAt σ fun rolls => ∀ d ∈ rolls, Q d := by
  intro n rolls e h
  rw [Rolling.answer_rollMany] at h
  split at h <;> cases h
  intro d hd
  obtain ⟨i, hi, rfl⟩ := List.mem_map.1 hd
  have := List.mem_range.1 hi
  exact hQ.rolled (n + i) (by omega) i

/-- The chain of a die: each new die keeps the law, with its penalty off. -/
theorem givesAt_explodeChain {penalty : Int64}
    (hnext : ∀ n < σ.supply.limit,
      Q ((RolledDie.ofRoll kind (kind.face (σ.supply.value n)) 0).setRoll
        (kind.face (σ.supply.value n) - penalty)))
    (fuel : Nat) {d : RolledDie} (h : Q d) :
    (explodeChain kind trigger penalty fuel d).GivesAt σ fun chain => ∀ d ∈ chain, Q d := by
  induction fuel generalizing d with
  | zero => exact Rolling.givesAt_pure (List.forall_mem_singleton.2 h)
  | succ fuel ih =>
    rw [explodeChain]
    split
    · have hroll : (kind.roll 0).GivesAt σ fun next => Q (next.setRoll (next.roll - penalty)) := by
        intro n next e hroll
        obtain ⟨hn, -, rfl⟩ := Rolling.answer_roll_eq_ok hroll
        exact hnext n hn
      refine hroll.bind fun next hnext => (ih hnext).bind fun chain hchain => ?_
      exact Rolling.givesAt_pure (List.forall_mem_cons.2 ⟨hQ.exploded h, hchain⟩)
    · exact Rolling.givesAt_pure (List.forall_mem_singleton.2 h)

/-- A compounded die obeys the law if the die that was there did. -/
theorem givesAt_compoundDie (huses : uses .compound) {d : RolledDie} (h : Q d) :
    (compoundDie kind trigger d).GivesAt σ Q := by
  rw [compoundDie]
  split
  · exact Rolling.givesAt_bind fun total =>
      Rolling.givesAt_pure (hQ.setTotal huses (hQ.exploded h) total)
  · exact Rolling.givesAt_pure h

/-- A chain of re-rolls obeys the law if what was there before did. -/
theorem givesAt_rerollChain (fuel : Nat) {before : List RolledDie} {d : RolledDie}
    (hbefore : ∀ d ∈ before, Q d) (h : Q d) :
    (rerollChain kind trigger fuel before d).GivesAt σ fun chain => ∀ d ∈ chain, Q d := by
  induction fuel generalizing before d with
  | zero => exact Rolling.givesAt_throw _ _
  | succ fuel ih =>
    rw [rerollChain]
    split
    · refine (hQ.givesAt_roll 0).bind fun next hnext => ?_
      exact ih (List.forall_mem_cons.2 ⟨hQ.replaced h, hbefore⟩) hnext
    · refine Rolling.givesAt_pure fun e he => ?_
      exact List.forall_mem_cons.2 ⟨h, hbefore⟩ e (List.mem_reverse.1 he)

theorem givesAt_rerollOneTime {d : RolledDie} (h : Q d) :
    (rerollOneTime kind trigger d).GivesAt σ fun chain => ∀ d ∈ chain, Q d := by
  rw [rerollOneTime]
  split
  · refine (hQ.givesAt_roll 0).bind fun next hnext => Rolling.givesAt_pure ?_
    exact List.forall_mem_cons.2 ⟨hQ.replaced h, List.forall_mem_singleton.2 hnext⟩
  · exact Rolling.givesAt_pure (List.forall_mem_singleton.2 h)

/-- **Rolling again** keeps the law, for the new dice and for the old ones. -/
theorem givesAt_mechanic {mechanic : Mechanic} (huses : uses mechanic) {rolls : List RolledDie}
    (h : ∀ d ∈ rolls, Q d) :
    (mechanic.apply kind trigger rolls).GivesAt σ fun rolls => ∀ d ∈ rolls, Q d := by
  have hchains {f : RolledDie → Rolling (List RolledDie)}
      (hf : ∀ d, Q d → (f d).GivesAt σ fun chain => ∀ d ∈ chain, Q d) :
      (do return Counted.numbered (← rolls.flatMapM f) : Rolling (List RolledDie)).GivesAt σ
        fun rolls => ∀ d ∈ rolls, Q d :=
    (Rolling.GivesAt.flatMapM fun d hd => hf d (h d hd)).bind
      fun _ hchains => Rolling.givesAt_pure (forall_mem_numbered hQ.setOrder hchains)
  unfold Mechanic.apply
  split
  · exact Rolling.givesAt_throw _ _
  · cases mechanic with
    | explode =>
      refine hchains fun d hd => hQ.givesAt_explodeChain (fun n hn => ?_) _ hd
      rw [RolledDie.setRoll_ofRoll_sub_zero]
      exact hQ.rolled n hn 0
    | penetrate => exact hchains fun d hd => hQ.givesAt_explodeChain (hQ.penetrated huses) _ hd
    | compound => exact Rolling.GivesAt.mapM fun d hd => hQ.givesAt_compoundDie huses (h d hd)
    | reroll =>
      exact hchains fun d hd => Rolling.givesAt_bind fun left =>
        hQ.givesAt_rerollChain _ (by simp) hd
    | rerollOnce => exact hchains fun d hd => hQ.givesAt_rerollOneTime hd

end KindLaw

namespace DieLaw

variable {Q : RolledDie → Prop} (hQ : DieLaw Q) {kind : DieType} {trigger : Condition Number}

include hQ

/-- A law about every die is one about those of a kind, whatever mechanics are used. -/
theorem kindLaw (σ : Setting) (kind : DieType) (uses : Mechanic → Prop) :
    KindLaw σ kind uses Q where
  rolled _ _ := hQ.rolled kind _
  penetrated _ _ _ := hQ.setRoll (hQ.rolled ..) _
  exploded := hQ.exploded
  setTotal _ _ := hQ.setTotal
  replaced := hQ.replaced
  setOrder := hQ.setOrder

theorem gives_rollMany (kind : DieType) (k : Nat) :
    (kind.rollMany k).Gives fun rolls => ∀ d ∈ rolls, Q d :=
  fun σ => (hQ.kindLaw σ kind fun _ => True).givesAt_rollMany k

/-- **Rolling again** keeps the law, whatever the mechanic. -/
theorem gives_mechanic (mechanic : Mechanic) {rolls : List RolledDie} (h : ∀ d ∈ rolls, Q d) :
    (mechanic.apply kind trigger rolls).Gives fun rolls => ∀ d ∈ rolls, Q d :=
  fun σ => (hQ.kindLaw σ kind fun _ => True).givesAt_mechanic trivial h

end DieLaw

end DiceNotation
