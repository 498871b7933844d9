import DiceNotation.Proofs.Roll.Steps
import Mathlib.Data.Nat.Basic
import Mathlib.Order.Basic

/-!
# Replaying a roll

A roll reads its supply one value after the other, and how many it reads
depends on those it has read. So a roll that ends, with a result or refused,
ends in the same way on every supply that repeats the values it drew
(`Node.answer_roll_replay`): what stands behind the last draw is never looked
at, and neither is the length of the supply.

Draws only go up (`Replays.le`), which is what places the draws of a step among
those of the whole. The two computations that ask how long the supply is need an
argument of their own: `rollMany` asks before it draws as many values as it asked
for, and the bound on re-rolls is never reached by a re-roll that ends.
-/

namespace DiceNotation

variable {s t : Supply} {ceiling : UInt64} {n e d : Nat}

/-- The values that `s` gives from draw `n` to draw `d`, `t` gives as well. -/
structure Supply.RepeatedBy (s t : Supply) (n d : Nat) : Prop where
  le_limit : d ≤ t.limit
  value_eq : ∀ i, n ≤ i → i < d → t.value i = s.value i

/-- A supply that repeats another one does so up to any place before. -/
theorem Supply.RepeatedBy.before (h : s.RepeatedBy t n d) (he : e ≤ d) : s.RepeatedBy t n e :=
  ⟨he.trans h.le_limit, fun i hn hi => h.value_eq i hn (by omega)⟩

theorem Supply.RepeatedBy.after (h : s.RepeatedBy t n d) (he : n ≤ e) : s.RepeatedBy t e d :=
  ⟨h.le_limit, fun i hn hi => h.value_eq i (by omega) hi⟩

namespace Rolling

variable {α β : Type}

/-- Whatever the computation ends with, it ends with on every supply that
repeats the values it drew. -/
structure Replays (m : Rolling α) : Prop where
  le : ∀ {σ : Setting} {n d : Nat} {answer : Except Halt α}, m.answer σ n = (answer, d) → n ≤ d
  replay : ∀ {s t : Supply} {ceiling : UInt64} {n d : Nat} {answer : Except Halt α},
    m.answer ⟨s, ceiling⟩ n = (answer, d) → answer ≠ .error .unfinished →
      s.RepeatedBy t n d → m.answer ⟨t, ceiling⟩ n = (answer, d)

/-! ## Steps -/

/-- A computation that answers at once replays. -/
theorem Replays.of_answer {m : Rolling α} (answer : UInt64 → Except Halt α)
    (h : ∀ σ n, m.answer σ n = (answer σ.ceiling, n)) : Replays m where
  le hm := by
    rw [h] at hm
    exact (congrArg Prod.snd hm).le
  replay hm _ _ := by rwa [h] at hm ⊢

theorem replays_refuse (e : RollError) : Replays (refuse e : Rolling α) :=
  .of_answer (fun _ => .error (.refused e)) fun _ _ => rfl

theorem Replays.bind {m : Rolling α} {f : α → Rolling β} (hm : Replays m)
    (hf : ∀ a, Replays (f a)) : Replays (m >>= f) where
  le h := by
    rw [answer_bind] at h
    split at h
    next a e ha => exact (hm.le ha).trans ((hf a).le h)
    next a e ha =>
      obtain ⟨-, rfl⟩ := Prod.mk.inj h
      exact hm.le ha
  replay h hend hrep := by
    rw [answer_bind] at h ⊢
    split at h
    next a e ha =>
      -- the first step draws up to `e`, the second from there on
      rw [hm.replay ha (by simp) (hrep.before ((hf a).le h))]
      exact (hf a).replay h hend (hrep.after (hm.le ha))
    next a e ha =>
      obtain ⟨rfl, rfl⟩ := Prod.mk.inj h
      rw [hm.replay ha (by simpa using hend) hrep]

/-- A face is drawn again from the same value. -/
theorem replays_rollFace (kind : DieType) : Replays kind.rollFace where
  le h := by
    rw [answer_rollFace] at h
    split at h <;> cases h <;> omega
  replay h hend hrep := by
    rw [answer_rollFace] at h ⊢
    split at h
    next hlt =>
      cases h
      have := hrep.le_limit
      rw [if_pos (by dsimp only; omega), hrep.value_eq _ le_rfl (by omega)]
    next =>
      cases h
      exact absurd rfl hend

/-- So are many faces from the same values. -/
theorem replays_rollMany (kind : DieType) (k : Nat) : Replays (kind.rollMany k) where
  le h := by
    rw [answer_rollMany] at h
    split at h <;> cases h <;> omega
  replay h hend hrep := by
    rw [answer_rollMany] at h ⊢
    split at h
    next =>
      cases h
      exact absurd rfl hend
    next =>
      cases h
      have := hrep.le_limit
      rw [if_neg (by dsimp only; omega)]
      congr 2
      refine List.map_congr_left fun i hi => ?_
      rw [hrep.value_eq _ (by omega) (by simpa using hi)]

/-! ## The unbounded re-roll -/

section Reroll

variable {kind : DieType} {trigger : Condition Number}

/-- **A re-roll that ends**, ends in the same way with any bound that leaves
room for the values it draws. -/
theorem answer_rerollChain_replay {rolls : List RolledDie} (fuel : Nat)
    (before : List RolledDie) (die : RolledDie) (n : Nat)
    (hm : (rerollChain kind trigger fuel before die).answer ⟨s, ceiling⟩ n = (.ok rolls, d)) :
    n ≤ d ∧ (s.RepeatedBy t n d → ∀ fuel', d - n < fuel' →
      (rerollChain kind trigger fuel' before die).answer ⟨t, ceiling⟩ n = (.ok rolls, d)) := by
  induction fuel generalizing before die n with
  | zero =>
    rw [rerollChain, answer_throw] at hm
    cases hm
  | succ fuel ih =>
    rw [rerollChain, answer_ite] at hm
    split at hm
    next hhit =>
      rw [answer_bind_eq_ok] at hm
      obtain ⟨next, e, hnext, hm⟩ := hm
      obtain ⟨-, rfl, rfl⟩ := answer_roll_eq_ok hnext
      obtain ⟨hle, hreplay⟩ := ih _ _ _ hm
      refine ⟨by omega, fun hrep fuel' hfuel => ?_⟩
      -- one of the draws was made here, so one less is left for the rest of the chain
      obtain ⟨fuel', rfl⟩ : ∃ k, fuel' = k + 1 := ⟨fuel' - 1, by omega⟩
      have hlimit : n < t.limit := by
        have := hrep.le_limit
        omega
      rw [rerollChain, answer_ite, if_pos hhit, answer_bind, answer_roll, if_pos hlimit]
      rw [hrep.value_eq n le_rfl (by omega)]
      exact hreplay (hrep.after (by omega)) fuel' (by omega)
    next hmiss =>
      cases hm
      refine ⟨le_rfl, fun _ fuel' hfuel => ?_⟩
      obtain ⟨fuel', rfl⟩ : ∃ k, fuel' = k + 1 := ⟨fuel' - 1, by omega⟩
      rw [rerollChain, answer_ite, if_neg hmiss]
      rfl

/-- An unbounded re-roll that has ended needs no more values than it drew. -/
theorem replays_rerollToMiss (die : RolledDie) : Replays (rerollToMiss kind trigger die) where
  le {σ n d answer} h := by
    rw [answer_rerollToMiss] at h
    cases answer with
    | error halt => exact (eq_unfinished_of_answer_rerollChain _ _ _ _ h).2
    | ok rolls => exact (answer_rerollChain_replay (t := σ.supply) _ _ _ _ h).1
  replay {s t ceiling n d answer} h hend hrep := by
    rw [answer_rerollToMiss] at h ⊢
    cases answer with
    | error halt =>
      obtain ⟨rfl, -⟩ := eq_unfinished_of_answer_rerollChain _ _ _ _ h
      exact absurd rfl hend
    | ok rolls =>
      obtain ⟨hle, hreplay⟩ := answer_rerollChain_replay _ _ _ _ h
      have := hrep.le_limit
      exact hreplay hrep _ (by dsimp only; omega)

end Reroll

/-! ## Expressions -/

theorem replays_ofSteps : OfSteps (fun _ m => Replays m) where
  pure a := .of_answer (fun _ => .ok a) fun _ _ => rfl
  bind := Replays.bind
  refuse e _ := replays_refuse e
  diceCount requested := .of_answer (fun ceiling => if requested.above (.int ceiling.toInt64) then
      .error (.refused (.limitExceeded requested ceiling)) else .ok (requested.toCount maxCount))
    fun σ n => answer_diceCount σ n requested
  rollFace := replays_rollFace
  rollMany := replays_rollMany
  rerollToMiss _ _ := replays_rerollToMiss

end Rolling

/-- **A roll depends on its supply only through the values that it draws.** If
it ends on one supply, after `d` draws, it ends with the same result or error,
and after as many draws, on every supply that gives those values too. -/
theorem Node.answer_roll_replay (node : Node) {answer : Except Halt Result}
    (hanswer : node.roll.answer ⟨s, ceiling⟩ n = (answer, d))
    (hend : answer ≠ .error .unfinished) (hlimit : d ≤ t.limit)
    (hagree : ∀ i, n ≤ i → i < d → t.value i = s.value i) :
    node.roll.answer ⟨t, ceiling⟩ n = (answer, d) := by
  have hreplays : node.roll.Replays :=
    Rolling.replays_ofSteps.node (fun _ => Rolling.replays_refuse) node
  exact hreplays.replay hanswer hend ⟨hlimit, hagree⟩

/-- Two dice of which the first explodes draw three values. A supply that goes on
behind them and one that ends there give the same result. -/
theorem Node.answer_roll_replay_explosion :
    let dice : Node := .term (.die {
      sides := .numeric (.int 6), count := .int 2, mods := [.again .explode none] }) none
    let tenths (k : Nat) : Double := .ofRatio false k 10
    ∃ r, dice.roll.answer ⟨.ofList [tenths 9, tenths 3, tenths 1, tenths 5], 1000⟩ 0 = (.ok r, 3) ∧
      dice.roll.answer ⟨.ofList [tenths 9, tenths 3, tenths 1], 1000⟩ 0 = (.ok r, 3) := by
  intro dice tenths
  obtain ⟨r, hr⟩ : ∃ r, dice.roll.answer
      ⟨.ofList [tenths 9, tenths 3, tenths 1, tenths 5], 1000⟩ 0 = (.ok r, 3) :=
    Rolling.exists_answer_eq_ok (by decide +kernel)
  refine ⟨r, hr, Node.answer_roll_replay dice hr (by simp) le_rfl fun i _ hi => ?_⟩
  match i, hi with
  | 0, _ | 1, _ | 2, _ => rfl
  | _ + 3, hi => omega

end DiceNotation
