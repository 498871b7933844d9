import DiceNotation.Proofs.Roll.Chains
import DiceNotation.Proofs.Roll.Steps

/-!
# Re-rolling

A die that is re-rolled stays in its place and counts no more; the die that takes its
part lies next to it. So each chain has one die that can count, its last one.

Nothing but the values ends an unbounded re-roll: it comes to an end if a face that
misses the trigger comes up again and again (`rerollAll_leaves_chains`). Re-rolling
once comes to an end on all values, but what takes the part of a die is not tested.
-/

namespace DiceNotation

open Counted

variable {kind : DieType} {trigger : Condition Number} {values : Nat → Double} {n k e : Nat}
  {d : RolledDie} {rolls dice : List RolledDie} {most : Option Nat}

/-- A die that is replaced counts no more, and the next one is as it comes up. -/
def replacement (kind : DieType) (trigger : Condition Number) : Chaining where
  trigger := trigger
  leave := RolledDie.replaced
  next v := .ofRoll kind (kind.face v) 0

/-! ## One die -/

/-- With more steps than replacements the chain is built to its end, after the dice
that are there. -/
theorem completes_rerollChain {fuel : Nat} {before : List RolledDie}
    (h : (replacement kind trigger).EndsAt values none n d k) (hfuel : k < fuel) :
    (rerollChain kind trigger fuel before d).Completes values n
      (before.reverse ++ (replacement kind trigger).chain values n d k) (n + k) := by
  induction fuel generalizing before n d k with
  | zero => exact absurd hfuel (Nat.not_lt_zero k)
  | succ fuel ih =>
    rw [rerollChain]
    cases k with
    | zero =>
      have hmiss : hits trigger d.roll = false := h.miss_of_zero (by simp)
      rw [if_neg (Bool.eq_false_iff.1 hmiss), Chaining.chain_zero, ← List.reverse_cons]
      exact Rolling.completes_pure _
    | succ k =>
      have hhits : hits trigger d.roll = true := h.hits_of_succ
      rw [if_pos hhits, Chaining.chain_succ, List.append_cons, ← List.reverse_cons,
        Nat.add_comm k 1, ← Nat.add_assoc]
      exact (Rolling.completes_roll kind 0).bind (ih h.tail (Nat.lt_of_succ_lt_succ hfuel))

/-- The steps that the supply allows are enough: each replacement draws a value. -/
theorem completes_rerollToMiss (h : (replacement kind trigger).EndsAt values none n d k) :
    (rerollToMiss kind trigger d).Completes values n
      ((replacement kind trigger).chain values n d k) (n + k) := by
  refine ⟨Nat.le_add_right n k, fun ceiling limit hlimit => ?_⟩
  have hfuel : k < limit - n + 1 := by omega
  rw [Rolling.answer_rerollToMiss]
  exact (completes_rerollChain h hfuel).answer ceiling limit hlimit

/-- A single re-roll is a chain of one step at most. -/
theorem completes_rerollOneTime (h : (replacement kind trigger).EndsAt values (some 1) n d k) :
    (rerollOneTime kind trigger d).Completes values n
      ((replacement kind trigger).chain values n d k) (n + k) := by
  rw [rerollOneTime]
  obtain rfl | rfl : k = 0 ∨ k = 1 := by
    have hle := h.le_most 1 rfl
    omega
  · have hmiss : hits trigger d.roll = false := h.miss_of_zero (by simp)
    rw [if_neg (Bool.eq_false_iff.1 hmiss)]
    exact Rolling.completes_pure [d]
  · have hhits : hits trigger d.roll = true := h.hits_of_succ
    rw [if_pos hhits]
    exact (Rolling.completes_roll kind 0).bind (Rolling.completes_pure _)

/-! ## What counts -/

/-- A die that counts is the last one of its chain. -/
theorem eq_inLine_of_valid {x : RolledDie}
    (hx : x ∈ (replacement kind trigger).chain values n d k) (hvalid : valid x = true) :
    x = (replacement kind trigger).inLine values n d k := by
  rcases Chaining.mem_chain.1 hx with ⟨i, -, rfl⟩ | hlast
  · exact absurd hvalid Bool.false_ne_true
  · exact hlast

/-- **No die that counts meets the trigger**, unless chains are cut short. -/
theorem miss_of_valid_of_lays (h : (replacement kind trigger).Lays values none n rolls dice e) :
    ∀ x ∈ dice, valid x = true → hits trigger x.roll = false := by
  refine h.forall_mem fun n d k hk x hx hvalid => ?_
  rw [eq_inLine_of_valid hx hvalid]
  exact hk.stops.resolve_right (by simp)

/-- In a chain of re-rolls the last die counts alone. -/
theorem countP_valid_chain (h : valid d = true) :
    ((replacement kind trigger).chain values n d k).countP valid = 1 := by
  induction k generalizing n d with
  | zero => simp [h]
  | succ k ih =>
    have hleave : ¬ valid ((replacement kind trigger).leave d) = true := Bool.false_ne_true
    rw [Chaining.chain_succ, List.countP_cons_of_neg hleave]
    exact ih rfl

/-- **One counts for one**: as many dice count as before, if all of them did. -/
theorem countP_valid_of_lays (h : (replacement kind trigger).Lays values most n rolls dice e)
    (hvalid : ∀ d ∈ rolls, valid d = true) : dice.countP valid = rolls.length := by
  induction h with
  | nil => rfl
  | cons _ _ ih =>
    obtain ⟨hd, hrolls⟩ := List.forall_mem_cons.1 hvalid
    rw [List.countP_append, countP_valid_chain hd, ih hrolls, List.length_cons, Nat.add_comm]

theorem countP_valid_numbered (dice : List RolledDie) :
    (numbered dice).countP valid = dice.countP valid := by
  have hsame : (numbered dice).map valid = dice.map valid :=
    map_numbered_of_unordered (fun _ _ => rfl) dice
  simpa [List.countP_map] using congrArg (List.countP id) hsame

/-! ## All dice -/

/-- The unbounded chain of a die ends with the first value that gives it a face to end
with, and there is such a value if there is always one to come. -/
theorem exists_endsAt_of_misses
    (h : ∀ m, ∃ i, m ≤ i ∧ hits trigger (kind.face (values i)) = false) (n : Nat) (d : RolledDie) :
    ∃ k, (replacement kind trigger).EndsAt values none n d k := by
  obtain ⟨i, hi, hmiss⟩ := h n
  refine Chaining.exists_endsAt ⟨i - n + 1, .inl ?_⟩
  rwa [Chaining.inLine, Nat.add_sub_cancel' hi]

/-- **What re-rolling leaves.** In the place of each die stands a chain of the die and
of the ones that take its part, which count for their faces as long as they are not
replaced themselves.

If a face that misses the trigger always comes up again, the unbounded re-roll comes to
an end with the last die of each chain missing the trigger, so no die that still counts
meets it. Re-rolling once comes to an end on all values, with one new die at most,
whatever its face. If all dice count before, then as many do afterwards. -/
theorem rerollAll_leaves_chains (kind : DieType) (trigger : Condition Number)
    (values : Nat → Double) :
    (∀ v, ((replacement kind trigger).next v).Plain ∧
      ((replacement kind trigger).next v).roll = kind.face v) ∧
    ((∀ m, ∃ i, m ≤ i ∧ hits trigger (kind.face (values i)) = false) →
      ∀ n rolls, ∃ dice e,
        (replacement kind trigger).Leaves none (rerollAll kind trigger false rolls) values n rolls
          dice e ∧
        (∀ d ∈ numbered dice, valid d = true → hits trigger d.roll = false) ∧
        ((∀ d ∈ rolls, valid d = true) → (numbered dice).countP valid = rolls.length)) ∧
    ∀ n rolls, ∃ dice e,
      (replacement kind trigger).Leaves (some 1) (rerollAll kind trigger true rolls) values n rolls
        dice e ∧
      ((∀ d ∈ rolls, valid d = true) → (numbered dice).countP valid = rolls.length) := by
  refine ⟨fun v => ⟨⟨rfl, rfl⟩, rfl⟩, fun hmisses n rolls => ?unbounded, fun n rolls => ?once⟩
  case unbounded =>
    obtain ⟨dice, e, hlays⟩ := Chaining.exists_lays (exists_endsAt_of_misses hmisses) n rolls
    refine ⟨dice, e, Chaining.leaves_of_chain (fun _ _ _ => completes_rerollToMiss) hlays, ?_, ?_⟩
    · exact forall_mem_numbered (fun h _ => h) (miss_of_valid_of_lays hlays)
    · exact fun hvalid => (countP_valid_numbered dice).trans (countP_valid_of_lays hlays hvalid)
  case once =>
    obtain ⟨dice, e, hlays⟩ := Chaining.exists_lays (Chaining.exists_endsAt_some 1) n rolls
    refine ⟨dice, e, Chaining.leaves_of_chain (fun _ _ _ => completes_rerollOneTime) hlays, ?_⟩
    exact fun hvalid => (countP_valid_numbered dice).trans (countP_valid_of_lays hlays hvalid)

/-- Ones on six-sided dice, on values that give ones and sixes in turn. -/
theorem rerollAll_leaves_chains_in_turn :
    let kind : DieType := .numeric 6
    let trigger : Condition Number := ⟨.equal, .int 1⟩
    let values (i : Nat) : Double := .ofRatio false (if i % 2 = 0 then 1 else 9) 10
    let rolls : List RolledDie := [.ofRoll kind 1 0, .ofRoll kind 3 1]
    (∀ m, ∃ i, m ≤ i ∧ hits trigger (kind.face (values i)) = false) ∧
      ∃ dice e,
        (replacement kind trigger).Leaves none (rerollAll kind trigger false rolls) values 0 rolls
          dice e ∧
        (∀ d ∈ numbered dice, valid d = true → hits trigger d.roll = false) ∧
        (numbered dice).countP valid = 2 := by
  intro kind trigger values rolls
  have hsix : hits trigger (kind.face (.ofRatio false 9 10)) = false := by decide +kernel
  have hmisses (m : Nat) : ∃ i, m ≤ i ∧ hits trigger (kind.face (values i)) = false := by
    refine ⟨2 * m + 1, by omega, ?_⟩
    have hodd : ¬ (2 * m + 1) % 2 = 0 := by omega
    simp only [values, if_neg hodd]
    exact hsix
  obtain ⟨dice, e, hleaves, hmiss, hcount⟩ :=
    (rerollAll_leaves_chains kind trigger values).2.1 hmisses 0 rolls
  exact ⟨hmisses, dice, e, hleaves, hmiss,
    hcount (by simp [rolls, RolledDie.ofRoll, valid, outcome])⟩

end DiceNotation
