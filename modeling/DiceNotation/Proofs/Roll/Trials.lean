import DiceNotation.Proofs.Notation.Grammatical
import DiceNotation.Proofs.Number.Sums
import DiceNotation.Proofs.Roll.Tally

/-!
# Tests with constant conditions

A condition whose target rolls no dice asks the same of every roll. So a list of
such tests is known as soon as it was applied once (`exists_trials`), and from
there on applying it is no computation any more: each die, or each item, goes
through the list by itself (`answer_foldlM_applyToDice`,
`answer_foldlM_applyToItems`).

What a list of tests should make of a value is its `score`, the successes that
the value meets less the failures.
-/

namespace DiceNotation

open Counted

/-! ## Trials and scores -/

/-- A test with its target known. -/
structure Trial where
  meaning : Test
  condition : Condition Number
deriving DecidableEq

/-- What a test adds to the count of a value that meets its condition. -/
def Test.weight : Test → Int64
  | .success => 1
  | .failure => -1
  | .crit | .critfail => 0

theorem Test.natAbs_weight_le (meaning : Test) : meaning.weight.toInt.natAbs ≤ 1 := by
  cases meaning <;> decide

namespace Trial

/-- The trial has the meaning, and the value meets its condition. -/
def counts (meaning : Test) (v : Number) (t : Trial) : Bool :=
  t.meaning = meaning && t.condition.meets v

/-- The successes that a value meets, less the failures. -/
def score (trials : List Trial) (v : Number) : Int :=
  trials.countP (counts .success v) - trials.countP (counts .failure v)

@[simp] theorem score_nil (v : Number) : score [] v = 0 := rfl

/-- A score is that of the first trial and that of the others. -/
theorem score_cons (t : Trial) (trials : List Trial) (v : Number) :
    score (t :: trials) v =
      (if t.condition.meets v then t.meaning.weight.toInt else 0) + score trials v := by
  obtain ⟨meaning, condition⟩ := t
  have hone : (1 : Int64).toInt = 1 := rfl
  have hminus : (-1 : Int64).toInt = -1 := rfl
  have hzero : (0 : Int64).toInt = 0 := rfl
  cases hmeets : condition.meets v <;> cases meaning <;>
    simp [score, counts, Test.weight, hmeets, hone, hminus, hzero] <;> omega

/-- No score is larger than the number of trials. -/
theorem natAbs_score_le (trials : List Trial) (v : Number) :
    (score trials v).natAbs ≤ trials.length := by
  have := List.countP_le_length (p := counts .success v) (l := trials)
  have := List.countP_le_length (p := counts .failure v) (l := trials)
  unfold score
  omega

/-- **A score does not depend on the order** of the trials. -/
theorem score_perm {trials trials' : List Trial} (h : trials.Perm trials') (v : Number) :
    score trials v = score trials' v := by
  rw [score, score, h.countP_eq, h.countP_eq]

/-- An item that goes through the trial. A mark is nothing to count. -/
def count {α : Type} [Counted α] (key : α → Number) (t : Trial) (a : α) : α :=
  if t.meaning.weight ≠ 0 ∧ valid a ∧ t.condition.meets (key a) then countOne t.meaning.weight a
  else a

end Trial

section Convert

variable {α : Type} [Counted α] (key : α → Number) (condition : Condition Number)
  (items : List α)

/-- Testing for success is a trial of each item. -/
theorem convert_success :
    convert key condition 1 items = items.map (Trial.count key ⟨.success, condition⟩) := by
  simp [convert, Trial.count, Test.weight]

theorem convert_failure :
    convert key condition (-1) items = items.map (Trial.count key ⟨.failure, condition⟩) := by
  simp [convert, Trial.count, Test.weight]

end Convert

/-! ## Counts -/

/-- The outcome as a count. -/
def Outcome.counted (c : Int) (o : Outcome) : Outcome :=
  { o with value := .int (Int64.ofInt c), success := true }

/-- The item at the end: what was not converted counts for nothing. -/
def Counted.settled {α : Type} [Counted α] (a : α) : α :=
  if success a then a else setOutcome { outcome a with value := .zero, success := true } a

section Counts

variable {α : Type} [Counted α] {a : α} {base : Outcome} {c : Int}

/-- With a target among the modifiers all items are settled. -/
theorem settle_eq_map {ε : Type} {mods : List (Modifier ε)} (h : mods.any Modifier.isTarget)
    (items : List α) : settle mods items = items.map settled :=
  if_pos h

/-- What does not count is not counted. -/
theorem foldl_count_of_invalid (key : α → Number) (trials : List Trial) (h : valid a = false) :
    trials.foldl (fun a t => t.count key a) a = a := by
  refine List.foldl_fixed' (fun t => ?_) trials
  rw [Trial.count, if_neg fun hcounts => ?_]
  exact absurd (h.symm.trans hcounts.2.1) (by simp)

variable [Lawful α]

/-- What was not converted counts for nothing. -/
theorem Counted.outcome_settled_of_success (h : success a = false) :
    outcome (settled a) = (outcome a).counted 0 := by
  rw [settled, if_neg (by simp [h]), Lawful.outcome_setOutcome]
  rfl

/-- The first count replaces the value. -/
theorem outcome_countOne_of_unconverted (delta : Int64) (h : success a = false) :
    outcome (countOne delta a) = (outcome a).counted delta.toInt := by
  rw [countOne, if_neg (by simp [h]), Lawful.outcome_setOutcome, Outcome.counted, Int64.ofInt_toInt]

/-- A count goes up or down by one. -/
theorem outcome_countOne_of_counted {delta : Int64} (h : outcome a = base.counted c)
    (hc : Number.Fits c) (hnext : Number.Fits (c + delta.toInt)) :
    outcome (countOne delta a) = base.counted (c + delta.toInt) := by
  have hvalue : value a = .int (Int64.ofInt c) := by rw [value, h, Outcome.counted]
  have hsum : value a + .int delta = .int (Int64.ofInt (c + delta.toInt)) := by
    rw [← Number.toInt_ofInt hc] at hnext ⊢
    rw [hvalue, Number.int_add_int hnext]
  rw [countOne, if_pos (by rw [success, h, Outcome.counted]), setValue, Lawful.outcome_setOutcome,
    hsum, h, Outcome.counted, Outcome.counted]

/-- An outcome has one count, if it fits. -/
theorem Outcome.counted_inj {o base : Outcome} {m n : Int} (hm : Number.Fits m)
    (hn : Number.Fits n) (h : o.counted m = base.counted n) : m = n := by
  have hint : Int64.ofInt m = Int64.ofInt n := by
    simpa [Outcome.counted] using congrArg Outcome.value h
  rw [← Number.toInt_ofInt hm, hint, Number.toInt_ofInt hn]

/-- Settling and counting can change places. -/
theorem settled_countOne (delta : Int64) (a : α) :
    settled (countOne delta a) = countOne delta a := by
  rw [settled, if_pos]
  rw [countOne, success]
  split
  next h => rwa [setValue, Lawful.outcome_setOutcome]
  next => rw [Lawful.outcome_setOutcome]

/-- **One more condition**: an item that would be a count of `c` at the end is one
of `c` and the weight of the trial, if it meets its condition. -/
theorem Trial.outcome_settled_count (key : α → Number) (t : Trial) (hvalid : valid a)
    (h : outcome (settled a) = base.counted c) (hc : Number.Fits c)
    (hnext : Number.Fits (c + t.meaning.weight.toInt)) :
    outcome (settled (t.count key a)) =
      base.counted (c + if t.condition.meets (key a) then t.meaning.weight.toInt else 0) := by
  by_cases hhit : t.meaning.weight ≠ 0 ∧ t.condition.meets (key a)
  · obtain ⟨hweight, hmeets⟩ := hhit
    rw [count, if_pos ⟨hweight, hvalid, hmeets⟩, if_pos hmeets, settled_countOne]
    cases hsuccess : success a with
    | true =>
      rw [settled, if_pos hsuccess] at h
      exact outcome_countOne_of_counted h hc hnext
    | false =>
      rw [outcome_settled_of_success hsuccess] at h
      obtain rfl : 0 = c := Outcome.counted_inj (by decide) hc h
      rw [outcome_countOne_of_unconverted _ hsuccess, Int.zero_add]
      exact (congrArg (Outcome.counted t.meaning.weight.toInt) h :)
  · have hstays : t.count key a = a :=
      if_neg fun hall => hhit ⟨hall.1, hall.2.2⟩
    rw [hstays, h]
    congr 1
    split
    next hmeets =>
      rw [show t.meaning.weight = 0 from by_contra fun hweight => hhit ⟨hweight, hmeets⟩]
      exact (Int.add_zero c).symm
    next => exact (Int.add_zero c).symm

end Counts

/-! ## Dice -/

/-- A die that goes through the trial, for a mark. -/
def Trial.mark (critical : Critical) (t : Trial) (d : RolledDie) : RolledDie :=
  if valid d && !success d then
    d.setCritical (critical.update (t.condition.meets (.int d.roll)) d.critical)
  else d

/-- A die that goes through the trial: it is counted, or marked. -/
def RolledDie.tried (t : Trial) (d : RolledDie) : RolledDie :=
  match t.meaning with
  | .success | .failure => t.count faceValue d
  | .crit => t.mark .success d
  | .critfail => t.mark .failure d

/-! ## Constant targets -/

/-- The expression has this value whatever is drawn, and draws nothing. -/
def Node.Constant (node : Node) (v : Number) : Prop :=
  ∀ σ n, ∃ r, node.roll.answer σ n = (.ok r, n) ∧ r.value = v

/-- Expressions without dice always answer the same. -/
theorem Node.Diceless.steady {node : Node} (h : node.Diceless) : node.roll.Steady := by
  induction h with
  | term hform _ ih =>
    rw [Node.roll_term]
    refine Rolling.steady_ofRefusals.labelled _ ?_
    refine Rolling.steady_ofRefusals.layer (by simpa using hform) (by simpa using ih) ?_
    exact .inr fun _ e => ⟨.error (.refused e), fun _ _ => rfl⟩
  | unsupported =>
    rw [Node.roll_unsupported]
    exact ⟨_, fun _ _ => rfl⟩

/-- Without dice, a value that was found once is always the value. -/
theorem Node.Diceless.constant {node : Node} (h : node.Diceless) {σ : Setting} {n d : Nat}
    {r : Result} (hr : node.roll.answer σ n = (.ok r, d)) : node.Constant r.value := by
  obtain ⟨answer, hsteady⟩ := h.steady
  obtain rfl : answer = .ok r := by
    rw [hsteady] at hr
    exact (Prod.mk.inj hr).1
  exact fun σ n => ⟨r, hsteady σ n, rfl⟩

/-- The modifier is the test of the trial, with a target that has its value. -/
def Modifier.Tests (m : Modifier Node) (t : Trial) : Prop :=
  ∃ target : Node, m = .test t.meaning ⟨t.condition.compare, target⟩ ∧
    target.Constant t.condition.target

/-- The modifier is a test, and its target rolls no dice. -/
structure Modifier.Fixed (m : Modifier Node) : Prop where
  isTest : m.isTest
  diceless : ∀ x ∈ m.operands, x.Diceless

section Answers

variable {σ : Setting} {n d : Nat}

/-- A condition with a constant target resolves to it without a draw. -/
theorem Node.Constant.answer_resolve {target : Node} {v : Number} (h : target.Constant v)
    (compare : Comparison) :
    (Condition.resolve ⟨compare, target.roll⟩).answer σ n = (.ok ⟨compare, v⟩, n) := by
  obtain ⟨r, hr, rfl⟩ := h σ n
  rw [Condition.resolve, Rolling.answer_bind, hr]
  rfl

/-! ## Lists of tests -/

/-- The kinds of loops that tests are applied in: no step succeeds without its
condition. -/
def ResolvesTests {β : Type} (f : β → Modifier (Rolling Result) → Rolling β) : Prop :=
  ∀ b meaning condition σ n b' d, (f b (.test meaning condition)).answer σ n = (.ok b', d) →
    ∃ c e, (Condition.resolve condition).answer σ n = (.ok c, e)

theorem resolvesTests_applyToDice (kind : DieType) :
    ResolvesTests (Modifier.applyToDice kind) := by
  intro rolls meaning condition σ n rolls' d h
  cases meaning with
  | success | failure | crit | critfail =>
    obtain ⟨c, e, hc, -⟩ := Rolling.answer_bind_eq_ok.1 h
    exact ⟨c, e, hc⟩

theorem resolvesTests_applyToItems {α : Type} [Counted α] :
    ResolvesTests (Modifier.applyToItems (α := α)) := by
  intro items meaning condition σ n items' d h
  cases meaning with
  | success | failure =>
    obtain ⟨c, e, hc, -⟩ := Rolling.answer_bind_eq_ok.1 h
    exact ⟨c, e, hc⟩
  | crit | critfail => cases h

/-- **Tests that were applied once are known.** -/
theorem exists_trials {β : Type} {f : β → Modifier (Rolling Result) → Rolling β}
    (hf : ResolvesTests f) {mods : List (Modifier Node)} (hmods : ∀ m ∈ mods, m.Fixed) {b b' : β}
    (h : ((mods.map (Modifier.map Node.roll)).foldlM f b).answer σ n = (.ok b', d)) :
    ∃ trials, List.Forall₂ Modifier.Tests mods trials := by
  induction mods generalizing b n with
  | nil => exact ⟨[], .nil⟩
  | cons m mods ih =>
    obtain ⟨hm, hmods⟩ := List.forall_mem_cons.1 hmods
    rw [List.map_cons, List.foldlM_cons, Rolling.answer_bind_eq_ok] at h
    obtain ⟨c, e, hstep, h⟩ := h
    obtain ⟨trials, htrials⟩ := ih hmods h
    match m with
    | .test meaning ⟨compare, target⟩ =>
      obtain ⟨condition, e, hresolve⟩ := hf _ _ _ _ _ _ _ hstep
      obtain ⟨r, e, hr, -⟩ := Rolling.answer_bind_eq_ok.1 hresolve
      have htarget := (hm.diceless target (by simp [Modifier.operands])).constant hr
      exact ⟨⟨meaning, ⟨compare, r.value⟩⟩ :: trials, .cons ⟨target, rfl, htarget⟩ htrials⟩
    | .select .. | .again .. | .unsupported => exact absurd hm.isTest (by simp [Modifier.isTest])

/-- A loop over known tests, if each step maps a list by a function of its trial. -/
theorem answer_foldlM_map {α : Type} {f : List α → Modifier (Rolling Result) → Rolling (List α)}
    {g : Trial → α → α} {mods : List (Modifier Node)} {trials : List Trial}
    (htrials : List.Forall₂ (fun m t => ∀ items : List α, ∀ σ n,
      (f items (m.map Node.roll)).answer σ n = (.ok (items.map (g t)), n)) mods trials)
    (items : List α) :
    ((mods.map (Modifier.map Node.roll)).foldlM f items).answer σ n =
      (.ok (items.map fun a => trials.foldl (fun a t => g t a) a), n) := by
  induction htrials generalizing items with
  | nil => simp
  | cons hstep _ ih =>
    rw [List.map_cons, List.foldlM_cons, Rolling.answer_bind, hstep]
    dsimp only
    rw [ih, List.map_map]
    rfl

/-- A test with a constant target is tried on each die. -/
theorem Modifier.Tests.answer_applyToDice {m : Modifier Node} {t : Trial} (h : m.Tests t)
    (kind : DieType) (rolls : List RolledDie) :
    ((m.map Node.roll).applyToDice kind rolls).answer σ n =
      (.ok (rolls.map (RolledDie.tried t)), n) := by
  obtain ⟨⟨meaning, compare, v⟩, target, rfl, htarget⟩ := t, h
  have hresolve := htarget.answer_resolve (σ := σ) (n := n) compare
  cases meaning with
  | success | failure =>
    simp only [Modifier.map, Condition.map, applyToDice, Rolling.answer_bind, hresolve,
      convert_success, convert_failure]
    rfl
  | crit | critfail =>
    simp only [Modifier.map, Condition.map, applyToDice, Rolling.answer_bind, hresolve]
    rfl

/-- **Dice go through known tests one by one.** -/
theorem answer_foldlM_applyToDice {mods : List (Modifier Node)} {trials : List Trial}
    (h : List.Forall₂ Modifier.Tests mods trials) (kind : DieType) (rolls : List RolledDie) :
    ((mods.map (Modifier.map Node.roll)).foldlM (Modifier.applyToDice kind) rolls).answer σ n =
      (.ok (rolls.map fun d => trials.foldl (fun d t => d.tried t) d), n) :=
  answer_foldlM_map (h.imp fun _ _ h rolls _ _ => h.answer_applyToDice kind rolls) rolls

theorem Modifier.Tests.answer_applyToItems {m : Modifier Node} {t : Trial} (h : m.Tests t)
    (htarget : m.isTarget) {α : Type} [Counted α] (items : List α) :
    ((m.map Node.roll).applyToItems items).answer σ n =
      (.ok (items.map (t.count value)), n) := by
  obtain ⟨⟨meaning, compare, v⟩, target, rfl, hconstant⟩ := t, h
  have hresolve := hconstant.answer_resolve (σ := σ) (n := n) compare
  cases meaning with
  | success | failure =>
    simp only [Modifier.map, Condition.map, applyToItems, Rolling.answer_bind, hresolve,
      convert_success, convert_failure]
    rfl
  | crit | critfail => cases htarget

/-- **Items go through known tests one by one**, if groups can count them. -/
theorem answer_foldlM_applyToItems {mods : List (Modifier Node)} {trials : List Trial}
    (h : List.Forall₂ Modifier.Tests mods trials) (htargets : ∀ m ∈ mods, m.isTarget) {α : Type}
    [Counted α] (items : List α) :
    ((mods.map (Modifier.map Node.roll)).foldlM Modifier.applyToItems items).answer σ n =
      (.ok (items.map fun a => trials.foldl (fun a t => t.count value a) a), n) :=
  answer_foldlM_map (((List.forall₂_and_left _ _).2 ⟨htargets, h⟩).imp
    fun _ _ h items _ _ => h.2.answer_applyToItems h.1 items) items

end Answers

end DiceNotation
