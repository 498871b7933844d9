import DiceNotation.Proofs.Roll.Compounds
import DiceNotation.Proofs.Roll.Orders
import Mathlib.Data.Nat.Find

/-!
# Chains of dice

Exploding and re-rolling go through the dice one by one and put a chain in the place
of each: the die and those that are rolled for it, as long as the last one meets the
trigger. What the mechanics part in is what becomes of a die that another one follows,
what die a value gives, and how many there may be (`Chaining`).

On an endless source of values a chain has a length that the values decide (`EndsAt`),
and the next one starts with the value after its last (`Lays`). A mechanic that builds
the chain of one die in this way builds those of all (`Chaining.leaves_of_chain`), so
for exploding there is only the one chain to look at (`explodeAll_leaves_chains`).
-/

namespace DiceNotation

open Counted

/-! ## Coming to an end -/

namespace Rolling

variable {α β : Type} {values : Nat → Double} {n e d : Nat}

/-- After `n` draws from the source the computation gives `a`, with `e` draws made by
then: on every supply that has as many. -/
structure Completes (m : Rolling α) (values : Nat → Double) (n : Nat) (a : α) (e : Nat) : Prop where
  le : n ≤ e
  answer : ∀ (ceiling : UInt64) (limit : Nat), e ≤ limit →
    m.answer ⟨⟨values, limit⟩, ceiling⟩ n = (.ok a, e)

/-- What draws nothing is complete where it stands. -/
theorem completes_pure (a : α) : (pure a : Rolling α).Completes values n a n :=
  ⟨Nat.le_refl n, fun _ _ _ => answer_pure a⟩

/-- One after the other is complete where the second one is. -/
theorem Completes.bind {m : Rolling α} {f : α → Rolling β} {a : α} {b : β}
    (hm : m.Completes values n a e) (hf : (f a).Completes values e b d) :
    (m >>= f).Completes values n b d := by
  refine ⟨Nat.le_trans hm.le hf.le, fun ceiling limit hlimit => ?_⟩
  rw [answer_bind, hm.answer ceiling limit (Nat.le_trans hf.le hlimit)]
  exact hf.answer ceiling limit hlimit

/-- A die takes the next value. -/
theorem completes_roll (kind : DieType) (order : Nat) :
    (kind.roll order).Completes values n (.ofRoll kind (kind.face (values n)) order) (n + 1) := by
  refine ⟨Nat.le_succ n, fun ceiling limit hlimit => ?_⟩
  rw [answer_roll]
  exact if_pos hlimit

end Rolling

/-! ## One chain -/

/-- How chains go on: what a die is tested for, what becomes of it when another one
follows, and which die a value gives. -/
structure Chaining where
  trigger : Condition Number
  leave : RolledDie → RolledDie
  next : Double → RolledDie

namespace Chaining

variable (c : Chaining) (values : Nat → Double)

/-- The die at a place of a chain, before anything becomes of it: the given one, or
the one that the next value gives. -/
def inLine (n : Nat) (d : RolledDie) : Nat → RolledDie
  | 0 => d
  | i + 1 => c.next (values (n + i))

/-- The chain of a die with so many dice after it. -/
def chain (n : Nat) (d : RolledDie) (k : Nat) : List RolledDie :=
  (List.range k).map (fun i => c.leave (c.inLine values n d i)) ++ [c.inLine values n d k]

/-- The chain of a die has `k` dice after it: all but the last one meet the trigger,
and the last one misses it or is the last that there may be. -/
structure EndsAt (most : Option Nat) (n : Nat) (d : RolledDie) (k : Nat) : Prop where
  hits_before : ∀ i < k, hits c.trigger (c.inLine values n d i).roll = true
  le_most : ∀ m ∈ most, k ≤ m
  stops : hits c.trigger (c.inLine values n d k).roll = false ∨ most = some k

/-- One chain in the place of each die, each with the values after those of the one
before. -/
inductive Lays (most : Option Nat) :
    Nat → List RolledDie → List RolledDie → Nat → Prop
  | nil (n : Nat) : Lays most n [] [] n
  | cons {n k e : Nat} {d : RolledDie} {rolls rest : List RolledDie} :
    c.EndsAt values most n d k → Lays most (n + k) rolls rest e →
      Lays most n (d :: rolls) (c.chain values n d k ++ rest) e

variable {c values} {most : Option Nat} {n k e : Nat} {d : RolledDie}
  {rolls dice : List RolledDie}

/-- Behind the first die the line goes on from the next value. -/
theorem inLine_succ (i : Nat) :
    c.inLine values n d (i + 1) = c.inLine values (n + 1) (c.next (values n)) i := by
  cases i with
  | zero => rfl
  | succ i => rw [inLine, inLine, Nat.add_assoc, Nat.add_comm 1 i]

@[simp] theorem chain_zero : c.chain values n d 0 = [d] := rfl

/-- A chain leaves its first die and goes on with the next value. -/
theorem chain_succ :
    c.chain values n d (k + 1) = c.leave d :: c.chain values (n + 1) (c.next (values n)) k := by
  simp only [chain, List.range_succ_eq_map, List.map_cons, List.map_map, List.cons_append,
    inLine_succ]
  refine congrArg (c.leave d :: · ++ _) (List.map_congr_left fun i _ => ?_)
  exact congrArg c.leave (inLine_succ i)

@[simp] theorem length_chain : (c.chain values n d k).length = k + 1 := by
  simp [chain]

/-- Dice of a chain have been left behind, or stand at its end. -/
theorem mem_chain {x : RolledDie} :
    x ∈ c.chain values n d k ↔
      (∃ i < k, c.leave (c.inLine values n d i) = x) ∨ x = c.inLine values n d k := by
  simp [chain]

/-! ## Where it ends -/

/-- A chain that ends with its first die did not hit, unless it may not go on. -/
theorem EndsAt.miss_of_zero (h : c.EndsAt values most n d 0) (hmost : most ≠ some 0) :
    hits c.trigger d.roll = false :=
  h.stops.resolve_right hmost

/-- A chain that goes on did hit. -/
theorem EndsAt.hits_of_succ (h : c.EndsAt values most n d (k + 1)) :
    hits c.trigger d.roll = true :=
  h.hits_before 0 k.succ_pos

/-- Behind its first die a chain is the chain of the next, which may have one die less. -/
theorem EndsAt.tail (h : c.EndsAt values most n d (k + 1)) :
    c.EndsAt values (most.map Nat.pred) (n + 1) (c.next (values n)) k := by
  refine ⟨fun i hi => ?_, fun m hm => ?_, ?_⟩
  · rw [← inLine_succ]
    exact h.hits_before (i + 1) (Nat.succ_lt_succ hi)
  · obtain ⟨m', hm', rfl⟩ := Option.mem_map.1 hm
    exact Nat.le_pred_of_lt (h.le_most m' hm')
  · rw [← inLine_succ]
    exact h.stops.imp_right fun hmost => by rw [hmost]; rfl

/-- A chain ends if it may not go on for ever, or if some die misses the trigger: at
the first such place. -/
theorem exists_endsAt
    (h : ∃ k, hits c.trigger (c.inLine values n d k).roll = false ∨ most = some k) :
    ∃ k, c.EndsAt values most n d k := by
  refine ⟨Nat.find h, fun i hi => ?_, fun m hm => ?_, Nat.find_spec h⟩
  · simpa using (not_or.1 (Nat.find_min h hi)).1
  · exact Nat.find_min' h (.inr hm)

/-- A chain with a longest length ends. -/
theorem exists_endsAt_some (m n : Nat) (d : RolledDie) : ∃ k, c.EndsAt values (some m) n d k :=
  exists_endsAt ⟨m, .inr rfl⟩

/-- If each chain ends, all of them can be laid out. -/
theorem exists_lays (h : ∀ n d, ∃ k, c.EndsAt values most n d k) (n : Nat)
    (rolls : List RolledDie) : ∃ dice e, c.Lays values most n rolls dice e := by
  induction rolls generalizing n with
  | nil => exact ⟨[], n, .nil n⟩
  | cons d rolls ih =>
    obtain ⟨k, hk⟩ := h n d
    obtain ⟨rest, e, hrest⟩ := ih (n + k)
    exact ⟨_, e, .cons hk hrest⟩

/-- **Every draw is a die more.** -/
theorem Lays.grows (h : c.Lays values most n rolls dice e) :
    e + rolls.length = n + dice.length := by
  induction h with
  | nil => rfl
  | cons _ _ ih =>
    simp only [List.length_cons, List.length_append, length_chain]
    omega

/-- What holds along each chain holds of all dice. -/
theorem Lays.forall_mem {Q : RolledDie → Prop} (h : c.Lays values most n rolls dice e)
    (hQ : ∀ n d k, c.EndsAt values most n d k → ∀ x ∈ c.chain values n d k, Q x) :
    ∀ x ∈ dice, Q x := by
  induction h with
  | nil => simp
  | cons hk _ ih => exact List.forall_mem_append.2 ⟨hQ _ _ _ hk, ih⟩

/-! ## All chains -/

/-- On the given values the computation comes to an end, with one chain in the place
of each die and all dice in their new places. It draws as many values as there are new
dice. -/
structure Leaves (c : Chaining) (most : Option Nat) (m : Rolling (List RolledDie))
    (values : Nat → Double) (n : Nat) (rolls dice : List RolledDie) (e : Nat) : Prop where
  lays : c.Lays values most n rolls dice e
  completes : m.Completes values n (numbered dice) e
  inOrder : InOrder (numbered dice)
  grows : e + rolls.length = n + dice.length

/-- **One chain is all chains.** If a computation builds the chain of each die, then
building them one after the other builds one in the place of each die. -/
theorem leaves_of_chain {f : RolledDie → Rolling (List RolledDie)}
    (hf : ∀ n d k, c.EndsAt values most n d k →
      (f d).Completes values n (c.chain values n d k) (n + k))
    (h : c.Lays values most n rolls dice e) :
    c.Leaves most (do return numbered (← rolls.flatMapM f)) values n rolls dice e := by
  have hloop : (rolls.flatMapM f).Completes values n dice e := by
    induction h with
    | nil n => exact Rolling.completes_pure []
    | cons hk _ ih =>
      rw [List.flatMapM_cons]
      exact (hf _ _ _ hk).bind (ih.bind (Rolling.completes_pure _))
  exact ⟨h, hloop.bind (Rolling.completes_pure _), inOrder_numbered dice, h.grows⟩

end Chaining

/-! ## Exploding -/

section Explosion

variable {kind : DieType} {trigger : Condition Number} {penalty : Int64} {values : Nat → Double}
  {n k : Nat} {d : RolledDie}

/-- A die that explodes is marked, and the next one has the penalty taken off. -/
def explosion (kind : DieType) (trigger : Condition Number) (penalty : Int64) : Chaining where
  trigger := trigger
  leave d := { d with exploded := true }
  next v := (RolledDie.ofRoll kind (kind.face v) 0).setRoll (kind.face v - penalty)

/-- Exploding is the chain with what each die leaves. -/
theorem completes_explodeChain {fuel : Nat}
    (h : (explosion kind trigger penalty).EndsAt values (some fuel) n d k) :
    (explodeChain kind trigger penalty fuel d).Completes values n
      ((explosion kind trigger penalty).chain values n d k) (n + k) := by
  induction fuel generalizing n d k with
  | zero =>
    obtain rfl : k = 0 := Nat.le_zero.1 (h.le_most 0 rfl)
    exact Rolling.completes_pure [d]
  | succ fuel ih =>
    rw [explodeChain]
    cases k with
    | zero =>
      have hmiss : hits trigger d.roll = false := h.miss_of_zero (by simp)
      rw [if_neg (Bool.eq_false_iff.1 hmiss)]
      exact Rolling.completes_pure [d]
    | succ k =>
      have hhits : hits trigger d.roll = true := h.hits_of_succ
      rw [if_pos hhits, Chaining.chain_succ, Nat.add_comm k 1, ← Nat.add_assoc]
      exact (Rolling.completes_roll kind 0).bind ((ih h.tail).bind (Rolling.completes_pure _))

/-- **What exploding leaves.** Whatever the values, exploding comes to an end. In the
place of each die stands a chain: the die and at most `maxChain` new ones, with the
penalty taken off, which count for what is left of their faces. All but the last one
meet the trigger and are marked; the last one misses it, or is the last there may be,
and is not. -/
theorem explodeAll_leaves_chains (kind : DieType) (trigger : Condition Number) (penalty : Int64)
    (values : Nat → Double) :
    (∀ v, ((explosion kind trigger penalty).next v).Plain ∧
      ((explosion kind trigger penalty).next v).roll = kind.face v - penalty ∧
      ((explosion kind trigger penalty).next v).exploded = false) ∧
    ∀ n rolls, ∃ dice e, (explosion kind trigger penalty).Leaves (some maxChain)
      (explodeAll kind trigger penalty rolls) values n rolls dice e := by
  refine ⟨fun v => ⟨⟨rfl, rfl⟩, rfl, rfl⟩, fun n rolls => ?_⟩
  obtain ⟨dice, e, hlays⟩ := Chaining.exists_lays (Chaining.exists_endsAt_some maxChain) n rolls
  exact ⟨dice, e, Chaining.leaves_of_chain (fun _ _ _ => completes_explodeChain) hlays⟩

end Explosion

end DiceNotation
