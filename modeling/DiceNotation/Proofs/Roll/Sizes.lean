import DiceNotation.Proofs.Number.Counts
import DiceNotation.Proofs.Roll.Ceiling
import DiceNotation.Proofs.Roll.Layout
import Mathlib.Tactic.Ring

/-!
# How many dice there are

A specification begins with as many dice as its count asks for, and modifiers only put
dice to those that are there. What a mechanic may make of one die is bounded, except
for the unbounded re-roll (`Mechanic.mostDice`); every other modifier leaves as many
dice as it finds. So the number of dice in the end lies between the count and the count
times what the modifiers may make of one die (`gives_length_foldlM`).
-/

namespace DiceNotation

open Counted

variable {ε φ : Type}

/-! ## Dice that are asked for -/

/-- The number of dice that a value asks for under a ceiling: none if it is below one
or no number, and otherwise its whole part. -/
structure Number.Requests (requested : Number) (ceiling k : Nat) : Prop where
  none : requested.atLeast (.int 1) = false → k = 0
  whole : requested.atLeast (.int 1) = true → (k : Int) = requested.whole
  le : k ≤ ceiling

/-- The count is answered with `k` under the ceiling, whatever the supply. -/
def Number.CountsAs (requested : Number) (ceiling : UInt64) (k : Nat) : Prop :=
  ∀ supply n, (diceCount requested).answer ⟨supply, ceiling⟩ n = (.ok k, n)

/-- The dice that were counted are as many as the number asks for. -/
theorem countsAs_of_answer_diceCount {requested : Number} {σ : Setting} {n k d : Nat}
    (h : (diceCount requested).answer σ n = (.ok k, d)) : requested.CountsAs σ.ceiling k := by
  intro supply n'
  rw [Rolling.answer_diceCount] at h ⊢
  dsimp only
  split at h <;> cases h
  next habove => rw [if_neg habove]

/-- **A count that is not refused** is for as many dice as it says, if the ceiling is
low enough to be exact as a double. -/
theorem requests_of_answer_diceCount {requested : Number} {σ : Setting} {n k d : Nat}
    (hceiling : σ.ceiling.toNat < 0x20000000000000)
    (h : (diceCount requested).answer σ n = (.ok k, d)) :
    requested.Requests σ.ceiling.toNat k ∧ d = n := by
  rw [Rolling.answer_diceCount] at h
  split at h
  · cases h
  next habove =>
    cases h
    have hview : (Number.int σ.ceiling.toInt64).toDouble = Double.ofInt σ.ceiling.toNat := by
      rw [Number.toDouble, toInt_toInt64, if_pos (by omega)]
    have hrank (hnan : requested.toDouble.isNaN = false) :
        requested.toDouble.rank ≤ (Double.ofInt σ.ceiling.toNat).rank := by
      by_contra hlt
      refine habove (Number.above_eq_true.2 ?_)
      rw [hview]
      exact ⟨hnan, Double.isNaN_ofInt _, Int.not_le.1 hlt⟩
    have hmost : σ.ceiling.toNat ≤ maxCount := by
      unfold maxCount
      omega
    exact ⟨⟨fun hone => Number.toCount_eq_zero hone _,
      fun hone => Number.toCount_eq_whole hceiling hrank hmost hone,
      Number.toCount_le hceiling hrank⟩, rfl⟩

/-! ## Dice that modifiers leave -/

/-- The most dice that a mechanic leaves for one. For the unbounded re-roll there is no
such number. -/
def Mechanic.mostDice : Mechanic → Nat
  | .explode | .penetrate => maxChain + 1
  | .rerollOnce => 2
  | .compound | .reroll => 1

/-- The most dice that a modifier leaves for one. -/
def Modifier.mostDice : Modifier ε → Nat
  | .again mechanic _ => mechanic.mostDice
  | _ => 1

/-- The modifier applies the mechanic. -/
def Modifier.applies (mechanic : Mechanic) : Modifier ε → Bool
  | .again other _ => decide (other = mechanic)
  | _ => false

@[simp] theorem Modifier.mostDice_map (f : ε → φ) (m : Modifier ε) :
    (m.map f).mostDice = m.mostDice := by
  cases m <;> rfl

@[simp] theorem Modifier.applies_map (f : ε → φ) (mechanic : Mechanic) (m : Modifier ε) :
    (m.map f).applies mechanic = m.applies mechanic := by
  cases m <;> rfl

/-- Of `k` dice the modifier may have left `n`. -/
structure Modifier.Leaves (m : Modifier ε) (k n : Nat) : Prop where
  least : k ≤ n
  most : m.applies .reroll = false → n ≤ k * m.mostDice

/-- Modifiers that add no dice leave as many. -/
theorem Modifier.leaves_of_length_eq (m : Modifier ε) (hm : m.mostDice = 1) {k n : Nat}
    (h : n = k) : m.Leaves k n :=
  ⟨Nat.le_of_eq h.symm, fun _ => by rw [h, hm, Nat.mul_one]⟩

/-- One more die, and what is made of it. -/
theorem Modifier.Leaves.cons {m : Modifier ε} {k n length : Nat} (h : m.Leaves 1 length)
    (h' : m.Leaves k n) : m.Leaves (k + 1) (length + n) where
  least := by
    have := h.least
    have := h'.least
    omega
  most hm := by
    have := h.most hm
    have := h'.most hm
    rw [Nat.add_mul]
    omega

/-! ### Chains -/

section Chains

variable {kind : DieType} {trigger : Condition Number}

/-- An exploding chain has the die itself, and as many more as there are steps. -/
theorem gives_length_explodeChain (penalty : Int64) (fuel : Nat) (d : RolledDie) :
    (explodeChain kind trigger penalty fuel d).Gives fun chain =>
      1 ≤ chain.length ∧ chain.length ≤ fuel + 1 := by
  induction fuel generalizing d with
  | zero => exact Rolling.gives_pure (by simp)
  | succ fuel ih =>
    rw [explodeChain]
    split
    · refine Rolling.gives_bind fun next => (ih _).bind fun chain hchain => Rolling.gives_pure ?_
      rw [List.length_cons]
      omega
    · exact Rolling.gives_pure (by simp)

/-- A chain of re-rolls has a die at least. -/
theorem gives_length_rerollChain (fuel : Nat) (before : List RolledDie) (d : RolledDie) :
    (rerollChain kind trigger fuel before d).Gives fun chain => 1 ≤ chain.length := by
  induction fuel generalizing before d with
  | zero => exact Rolling.gives_throw _ _
  | succ fuel ih =>
    rw [rerollChain]
    split
    · exact Rolling.gives_bind fun next => ih _ _
    · exact Rolling.gives_pure (by simp)

theorem gives_length_rerollToMiss (d : RolledDie) :
    (rerollToMiss kind trigger d).Gives fun chain => 1 ≤ chain.length :=
  Rolling.gives_bind fun left => gives_length_rerollChain (left + 1) [] d

/-- A single re-roll leaves two dice at most. -/
theorem gives_length_rerollOneTime (d : RolledDie) :
    (rerollOneTime kind trigger d).Gives fun chain => 1 ≤ chain.length ∧ chain.length ≤ 2 := by
  rw [rerollOneTime]
  split
  · exact Rolling.gives_bind fun next => Rolling.gives_pure (by simp)
  · exact Rolling.gives_pure (by simp)

/-- One chain for each die. -/
theorem gives_length_chains (m : Modifier ε) {f : RolledDie → Rolling (List RolledDie)}
    (hf : ∀ d, (f d).Gives fun chain => m.Leaves 1 chain.length) (rolls : List RolledDie) :
    (do return numbered (← rolls.flatMapM f) : Rolling (List RolledDie)).Gives
      fun out => m.Leaves rolls.length out.length := by
  have hchains : (rolls.flatMapM f).Gives fun out => m.Leaves rolls.length out.length := by
    induction rolls with
    | nil => exact Rolling.gives_pure ⟨Nat.le_refl 0, fun _ => Nat.zero_le _⟩
    | cons d rolls ih =>
      rw [List.flatMapM_cons]
      refine (hf d).bind fun chain hchain => ih.bind fun rest hrest => Rolling.gives_pure ?_
      rw [List.length_append, List.length_cons]
      exact hchain.cons hrest
  refine hchains.bind fun out hout => Rolling.gives_pure ?_
  rwa [numbered, List.length_mapIdx]

end Chains

/-! ### Modifiers -/

/-- **What a mechanic leaves**: at least the dice that it found, and no more than it may
make of them. -/
theorem gives_length_mechanic (mechanic : Mechanic) (written : Option (Condition ε))
    (kind : DieType) (trigger : Condition Number) (rolls : List RolledDie) :
    (mechanic.apply kind trigger rolls).Gives fun out =>
      (Modifier.again mechanic written).Leaves rolls.length out.length := by
  have hbounded {m : Rolling (List RolledDie)}
      (h : m.Gives fun chain => 1 ≤ chain.length ∧ chain.length ≤ mechanic.mostDice) :
      m.Gives fun chain => (Modifier.again mechanic written).Leaves 1 chain.length := by
    intro σ n chain d hchain
    obtain ⟨hleast, hmost⟩ := h σ n chain d hchain
    exact ⟨hleast, fun _ => by rwa [Nat.one_mul]⟩
  unfold Mechanic.apply
  split
  · exact Rolling.gives_throw _ _
  · cases mechanic with
    | explode =>
      exact gives_length_chains _ (fun d => hbounded (gives_length_explodeChain 0 maxChain d)) rolls
    | penetrate =>
      exact gives_length_chains _ (fun d => hbounded (gives_length_explodeChain 1 maxChain d)) rolls
    | compound =>
      intro σ n out d h
      exact Modifier.leaves_of_length_eq _ rfl (Rolling.length_of_answer_mapM h)
    | reroll =>
      refine gives_length_chains _ (fun d σ n chain e h => ?_) rolls
      exact ⟨gives_length_rerollToMiss d σ n chain e h, fun hbounded => by cases hbounded⟩
    | rerollOnce =>
      exact gives_length_chains _ (fun d => hbounded (gives_length_rerollOneTime d)) rolls

/-- The dice that a modifier leaves are as many as its kind may leave. -/
theorem gives_length_applyToDice (m : Modifier (Rolling Result)) (kind : DieType)
    (rolls : List RolledDie) :
    (m.applyToDice kind rolls).Gives fun out => m.Leaves rolls.length out.length := by
  match m with
  | .select .. =>
    refine Rolling.gives_bind fun r => Rolling.gives_pure (Modifier.leaves_of_length_eq _ rfl ?_)
    exact (changed_selectItems ..).length_eq.symm
  | .test .success _ | .test .failure _ =>
    refine Rolling.gives_bind fun c => Rolling.gives_pure (Modifier.leaves_of_length_eq _ rfl ?_)
    exact (changed_convert ..).length_eq.symm
  | .test .crit _ | .test .critfail _ =>
    refine Rolling.gives_bind fun c => Rolling.gives_pure (Modifier.leaves_of_length_eq _ rfl ?_)
    exact List.length_map ..
  | .again mechanic (some trigger) =>
    exact Rolling.gives_bind fun t => gives_length_mechanic mechanic (some trigger) kind t rolls
  | .again mechanic none => exact gives_length_mechanic mechanic none kind _ rolls
  | .unsupported => exact Rolling.gives_throw _ _

/-- **What a list of modifiers leaves.** -/
theorem gives_length_foldlM (mods : List (Modifier (Rolling Result))) (kind : DieType)
    (rolls : List RolledDie) :
    (mods.foldlM (Modifier.applyToDice kind) rolls).Gives fun out =>
      rolls.length ≤ out.length ∧ ((∀ m ∈ mods, m.applies .reroll = false) →
        out.length ≤ rolls.length * (mods.map Modifier.mostDice).prod) := by
  induction mods generalizing rolls with
  | nil => exact Rolling.gives_pure (by simp)
  | cons m mods ih =>
    rw [List.foldlM_cons]
    refine (gives_length_applyToDice m kind rolls).bind fun next hnext => ?_
    intro σ n out d h
    obtain ⟨hleast, hmost⟩ := ih next σ n out d h
    refine ⟨Nat.le_trans hnext.least hleast, fun hbounded => ?_⟩
    obtain ⟨hm, hmods⟩ := List.forall_mem_cons.1 hbounded
    rw [List.map_cons, List.prod_cons, ← Nat.mul_assoc]
    exact Nat.le_trans (hmost hmods) (Nat.mul_le_mul_right _ (hnext.most hm))

/-! ## Dice of one specification -/

/-- What may become of one die, by the kinds of modifiers. -/
theorem prod_mostDice (mods : List (Modifier ε)) :
    (mods.map Modifier.mostDice).prod =
      (maxChain + 1) ^ (mods.countP (Modifier.applies .explode) +
        mods.countP (Modifier.applies .penetrate)) *
          2 ^ mods.countP (Modifier.applies .rerollOnce) := by
  induction mods with
  | nil => rfl
  | cons m mods ih =>
    rw [List.map_cons, List.prod_cons, ih]
    cases m with
    | again mechanic trigger =>
      cases mechanic <;> simp [Modifier.applies, Modifier.mostDice, Mechanic.mostDice] <;> ring
    | select | test | unsupported => simp [Modifier.applies, Modifier.mostDice]

/-- Both lists of modifiers are gone through as one. -/
theorem DieSpec.rollDice_eq (spec : DieSpec (Rolling Result)) (kind : DieType) (k : Nat) :
    spec.rollDice kind k = kind.rollMany k >>= fun rolls => do
      return settle spec.targets
        (← (Form.die spec).modifiers.foldlM (Modifier.applyToDice kind) rolls) := by
  simp [rollDice, Form.modifiers]

theorem gives_length_rollMany (kind : DieType) (k : Nat) :
    (kind.rollMany k).Gives fun rolls => rolls.length = k := by
  intro σ n rolls d h
  rw [Rolling.answer_rollMany] at h
  split at h <;> cases h
  simp

/-- The number of dice in a result of the specification, of which `k` were rolled first. -/
structure DieSpec.Holds (spec : DieSpec ε) (k n : Nat) : Prop where
  least : k ≤ n
  most : (∀ m ∈ (Form.die spec).modifiers, m.applies .reroll = false) →
    n ≤ k * ((Form.die spec).modifiers.map Modifier.mostDice).prod

/-- **From the first roll to the last modifier.** -/
theorem DieSpec.gives_length_rollDice (spec : DieSpec (Rolling Result)) (kind : DieType) (k : Nat) :
    (spec.rollDice kind k).Gives fun rolls => spec.Holds k rolls.length := by
  rw [rollDice_eq]
  refine (gives_length_rollMany kind k).bind fun rolls hrolls => ?_
  refine (gives_length_foldlM _ kind rolls).bind fun out hout => Rolling.gives_pure ?_
  rw [← (changed_settle spec.targets out).length_eq, ← hrolls]
  exact ⟨hout.1, hout.2⟩

/-- **The number of dice in a result**, by the count that it shows. -/
theorem DieSpec.exists_holds_of_answer_roll {spec : DieSpec (Rolling Result)} {σ : Setting}
    {n d : Nat} {r count : Result} {sides : Sides Result} {rolls : List RolledDie} {matched : Bool}
    (hceiling : σ.ceiling.toNat < 0x20000000000000) (h : spec.roll.answer σ n = (.ok r, d))
    (hshape : r.shape = .dice count sides rolls matched) :
    ∃ k, count.value.CountsAs σ.ceiling k ∧ count.value.Requests σ.ceiling.toNat k ∧
      spec.Holds k rolls.length := by
  obtain ⟨count', e₁, -, k, e₂, hk, sides', kind, e₃, -, dice, e₄, hdice, hconclude⟩ :=
    answer_roll_eq_ok.1 h
  obtain ⟨faces, matched', hshape'⟩ := exists_shape_of_answer_conclude hconclude
  rw [hshape'] at hshape
  cases hshape
  have hholds := spec.gives_length_rollDice kind k σ e₃ dice e₄ hdice
  refine ⟨k, countsAs_of_answer_diceCount hk, (requests_of_answer_diceCount hceiling hk).1, ?_⟩
  -- a match and a sort leave as many dice as there are
  rwa [spec.length_arrange, markMatched, List.length_map]

/-- Only the mechanics of the specification matter. -/
theorem DieSpec.Holds.of_map {spec : DieSpec ε} {f : ε → φ} {k n : Nat}
    (h : (spec.map f).Holds k n) : spec.Holds k n := by
  refine ⟨h.least, fun hmods => ?_⟩
  have hmost := h.most
  rw [DieSpec.modifiers_map, List.map_map] at hmost
  simpa [Function.comp_def] using hmost (by simpa using hmods)

end DiceNotation
