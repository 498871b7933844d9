import DiceNotation.Proofs.Roll.Trials

/-!
# Groups that count

The conditions of a group are tested on the values of its items, and an item
that met one has its count for a value from there on. So only the first condition
that an item meets is met by the value that it had before; each later one is
tested on the count so far (`Trial.recount`). On dice the same list of conditions
is tested on the face throughout, and gives the score (`Trial.score`).

The two agree all along a list of conditions exactly if the count meets what the
value would have met (`Trial.recount_eq_score_iff`).
-/

namespace DiceNotation

open Counted

/-! ## Counting again what was counted -/

namespace Trial

variable (trials : List Trial) (v : Number)

/-- What a condition is tested on: the value, until there is a count. -/
def standing : Option Int → Number
  | none => v
  | some c => .int (Int64.ofInt c)

/-- The count after one more trial, if there is one by then. -/
def countUp (count : Option Int) (t : Trial) : Option Int :=
  if t.condition.meets (standing v count) then some (count.getD 0 + t.meaning.weight.toInt)
  else count

/-- The count that one trial after the other gives, if any condition is met. -/
def running : Option Int := trials.foldl (countUp v) none

/-- The count that the trials leave, which is zero if no condition is met. -/
def recount : Int := (running trials v).getD 0

/-- Whenever a condition is tested, what it is tested on meets it exactly if the
value does. -/
def Undisturbed : Prop :=
  ∀ k (hk : k < trials.length),
    trials[k].condition.meets (standing v (running (trials.take k) v)) =
      trials[k].condition.meets v

/-- A trial changes a count by one at most. -/
theorem natAbs_countUp_le (t : Trial) (c : Option Int) :
    ((countUp v c t).getD 0).natAbs ≤ (c.getD 0).natAbs + 1 := by
  have := t.meaning.natAbs_weight_le
  rw [countUp]
  split
  · rw [Option.getD_some]
    omega
  · omega

theorem natAbs_foldl_countUp_le (c : Option Int) :
    ((trials.foldl (countUp v) c).getD 0).natAbs ≤ (c.getD 0).natAbs + trials.length := by
  induction trials generalizing c with
  | nil => exact Nat.le_refl _
  | cons t trials ih =>
    have := ih (countUp v c t)
    have := natAbs_countUp_le v t c
    rw [List.foldl_cons, List.length_cons]
    omega

/-- No more is counted than there are trials. -/
theorem natAbs_recount_le : (recount trials v).natAbs ≤ trials.length := by
  have := natAbs_foldl_countUp_le trials v none
  rwa [Option.getD_none, Int.natAbs_zero, Nat.zero_add] at this

variable {trials v}

/-- One more trial is tried on what the others have left. -/
theorem recount_take_succ {k : Nat} (hk : k < trials.length) :
    recount (trials.take (k + 1)) v = recount (trials.take k) v +
      if trials[k].condition.meets (standing v (running (trials.take k) v)) then
        trials[k].meaning.weight.toInt else 0 := by
  rw [recount, running, List.take_succ_eq_append_getElem hk, List.foldl_concat, ← running, countUp]
  split
  · rfl
  · exact (Int.add_zero _).symm

/-- One more trial adds its weight if it is met. -/
theorem score_take_succ {k : Nat} (hk : k < trials.length) :
    score (trials.take (k + 1)) v = score (trials.take k) v +
      if trials[k].condition.meets v then trials[k].meaning.weight.toInt else 0 := by
  rw [List.take_succ_eq_append_getElem hk, score_perm List.perm_append_comm, List.singleton_append,
    score_cons, Int.add_comm]

/-- **Where counting again is counting.** The count so far is the score so far,
after each of the trials, exactly if they are undisturbed. -/
theorem recount_eq_score_iff (h : ∀ t ∈ trials, t.meaning.weight ≠ 0) :
    (∀ k ≤ trials.length, recount (trials.take k) v = score (trials.take k) v) ↔
      Undisturbed trials v := by
  constructor
  · intro heq k hk
    have hbefore := heq k (Nat.le_of_lt hk)
    have hafter := heq (k + 1) hk
    have hweight : trials[k].meaning.weight.toInt ≠ 0 :=
      fun hzero => h _ (List.getElem_mem hk) (Int64.toInt_inj.1 hzero)
    rw [recount_take_succ hk, score_take_succ hk, hbefore] at hafter
    -- one step more is the same step, so either both or none of the values met it
    have hstep := Int.add_left_cancel hafter
    generalize trials[k].condition.meets (standing v (running (trials.take k) v)) = met at hstep ⊢
    generalize trials[k].condition.meets v = meets at hstep ⊢
    cases met <;> cases meets
    · rfl
    · exact absurd hstep.symm hweight
    · exact absurd hstep hweight
    · rfl
  · intro hundisturbed k hk
    induction k with
    | zero => rfl
    | succ k ih =>
      rw [recount_take_succ hk, score_take_succ hk, ih (Nat.le_of_succ_le hk), hundisturbed k hk]

end Trial

/-! ## One item -/

section Item

variable {α : Type} [Counted α] {trials : List Trial} {a b : α}

/-- The item was recounted: it is a count, and if it counts, the one that its
value had under the trials. -/
structure Counted.Recounts (trials : List Trial) (a b : α) : Prop where
  success : success b = true
  valid_eq : valid b = valid a
  value : valid a = true → ∃ count : Int64, value b = .int count ∧
    count.toInt = Trial.recount trials (value a)

/-- The outcome with its count, if it has one. -/
def Outcome.recounted (o : Outcome) : Option Int → Outcome
  | none => o
  | some c => o.counted c

variable [Lawful α]

/-- **One more condition**, tested on the value or on the count so far. -/
theorem Trial.outcome_count {t : Trial} (ht : t.meaning.weight ≠ 0) {base : Outcome}
    (hvalid : base.valid = true) (hbase : base.success = false) {c : Option Int}
    (hc : Number.Fits (c.getD 0)) (hnext : Number.Fits (c.getD 0 + t.meaning.weight.toInt))
    (h : outcome a = base.recounted c) :
    outcome (t.count value a) = base.recounted (countUp base.value c t) := by
  have hvalue : value a = standing base.value c := by
    cases c <;> rw [value, h] <;> rfl
  have ha : valid a = true := by
    cases c <;> rw [valid, h] <;> exact hvalid
  rw [count, countUp, hvalue]
  by_cases hmeets : t.condition.meets (standing base.value c)
  · rw [if_pos ⟨ht, ha, hmeets⟩, if_pos hmeets]
    cases c with
    | none =>
      have hsuccess : success a = false := by rwa [success, h]
      rw [outcome_countOne_of_unconverted _ hsuccess, h, Option.getD_none, Int.zero_add]
      rfl
    | some c => exact outcome_countOne_of_counted h hc hnext
  · rw [if_neg fun hall => hmeets hall.2.2, if_neg hmeets, h]

/-- **Every item is counted by itself**, from what it is to what the trials leave. -/
theorem Trial.outcome_foldl_count {base : Outcome} (hvalid : base.valid = true)
    (hbase : base.success = false) (h : ∀ t ∈ trials, t.meaning.weight ≠ 0) {c : Option Int}
    (hc : (c.getD 0).natAbs + trials.length ≤ Number.highest) (ha : outcome a = base.recounted c) :
    outcome (trials.foldl (fun a t => t.count value a) a) =
      base.recounted (trials.foldl (countUp base.value) c) := by
  induction trials generalizing a c with
  | nil => exact ha
  | cons t trials ih =>
    obtain ⟨ht, h⟩ := List.forall_mem_cons.1 h
    have hweight := t.meaning.natAbs_weight_le
    have hup := natAbs_countUp_le base.value t c
    rw [List.length_cons] at hc
    have hstep := outcome_count ht hvalid hbase (Number.fits_of_natAbs (by omega))
      (Number.fits_of_natAbs (by omega)) ha
    exact ih h (by omega) hstep

/-- What was counted again is settled with its count. -/
theorem outcome_settled_of_recounted {base : Outcome} (hbase : base.success = false)
    {c : Option Int} (h : outcome a = base.recounted c) :
    outcome (settled a) = base.counted (c.getD 0) := by
  cases c with
  | none =>
    have hsuccess : success a = false := by rwa [success, h]
    rw [outcome_settled_of_success hsuccess, h]
    rfl
  | some c =>
    rw [settled, if_pos (by rw [success, h]; rfl), h]
    rfl

/-- All trials one after the other count again what they have counted. -/
theorem Trial.recounts_settled (h : ∀ t ∈ trials, t.meaning.weight ≠ 0)
    (hlength : trials.length ≤ Number.highest) (ha : success a = false) :
    Recounts trials a (settled (trials.foldl (fun a t => t.count value a) a)) := by
  cases hvalid : valid a with
  | false =>
    have hsettled := outcome_settled_of_success ha
    rw [foldl_count_of_invalid value trials hvalid]
    refine ⟨?_, ?_, fun h => absurd (hvalid.symm.trans h) (by simp)⟩
    · rw [success, hsettled, Outcome.counted]
    · rw [valid, hsettled, Outcome.counted, valid]
  | true =>
    have hcounted := outcome_foldl_count (c := none) hvalid ha h (by simpa using hlength) rfl
    have hsettled := outcome_settled_of_recounted ha hcounted
    have hfits := natAbs_recount_le trials (value a)
    refine ⟨?_, ?_, fun _ => ⟨.ofInt (recount trials (value a)), ?_, ?_⟩⟩
    · rw [success, hsettled, Outcome.counted]
    · rw [valid, hsettled]
      rfl
    · rw [value, hsettled]
      rfl
    · exact Number.toInt_ofInt (Number.fits_of_natAbs (by omega))

end Item

/-! ## Groups -/

theorem Modifier.Tests.weight_ne_zero {m : Modifier Node} {t : Trial} (h : m.Tests t)
    (htarget : m.isTarget) : t.meaning.weight ≠ 0 := by
  obtain ⟨⟨meaning, condition⟩, target, rfl, -⟩ := t, h
  cases meaning with
  | success | failure => simp [Test.weight]
  | crit | critfail => cases htarget

theorem Modifier.weight_ne_zero_of_tests {mods : List (Modifier Node)} {trials : List Trial}
    (h : List.Forall₂ Modifier.Tests mods trials) (htargets : ∀ m ∈ mods, m.isTarget) :
    ∀ t ∈ trials, t.meaning.weight ≠ 0 := by
  intro t ht
  obtain ⟨m, hm, hm'⟩ := exists_of_forall₂_of_mem h ht
  exact hm'.weight_ne_zero (htargets m hm)

/-- Only the items of groups are converted, never what an expression gives. -/
theorem Node.gives_roll_unconverted (node : Node) :
    node.roll.Gives fun r => r.outcome.success = false := by
  refine Node.fold_induction
    (P := fun m : Rolling Result => m.Gives fun r => r.outcome.success = false)
    (fun form label hparts => ?_) (Rolling.gives_throw _ _) node
  refine Rolling.Gives.bind (P := fun r => r.outcome.success = false) ?_ fun r hr =>
    Rolling.gives_pure ?_
  · cases form with
    | number => exact Rolling.gives_pure rfl
    | inline expr => exact hparts expr (by simp [Form.parts, Form.terms])
    | die spec =>
      intro σ n r d h
      obtain ⟨count, e₁, -, k, e₂, -, sides, kind, e₃, -, rolls, e₄, -, h⟩ :=
        DieSpec.answer_roll_eq_ok.1 h
      rcases DieSpec.answer_conclude_eq_ok h with ⟨-, -, rfl⟩ | ⟨m, faces, -, -, rfl⟩
      · rfl
      · split <;> rfl
    | group =>
      intro σ n r d h
      obtain ⟨results, e, -, h⟩ := answer_rollGroup_eq_ok h
      rcases h with ⟨member, dice, -, -, -, -, rfl⟩ | ⟨-, items, -, rfl⟩
      · rfl
      · rfl
    | sum | chain | function => exact Rolling.gives_bind fun _ => Rolling.gives_pure rfl
  · cases label with
    | none => exact hr
    | some label => simpa [Result.relabel, setLabel] using hr

section Groups

variable {mods : List (Modifier Node)} {trials : List Trial} {σ : Setting} {n d : Nat}

/-- The targets of a group recount every item that was not converted before. -/
theorem forall₂_recounts {α : Type} [Counted α] [Lawful α]
    (h : List.Forall₂ Modifier.Tests mods trials) (htargets : ∀ m ∈ mods, m.isTarget)
    (hsome : mods ≠ []) (hlength : mods.length ≤ Number.highest) {items items' : List α}
    (hitems : ((mods.map (Modifier.map Node.roll)).foldlM Modifier.applyToItems items).answer σ n =
      (.ok items', d))
    (hunconverted : ∀ a ∈ items, success a = false) :
    List.Forall₂ (Recounts trials) items (settle (mods.map (Modifier.map Node.roll)) items') := by
  rw [answer_foldlM_applyToItems h htargets] at hitems
  cases hitems
  have hcounting : mods.any Modifier.isTarget := by
    obtain ⟨m, hm⟩ := List.exists_mem_of_ne_nil mods hsome
    exact List.any_eq_true.2 ⟨m, hm, htargets m hm⟩
  rw [settle_map_modifiers, settle_eq_map hcounting, List.map_map, List.forall₂_map_right_iff]
  exact List.forall₂_same.2 fun a ha => Trial.recounts_settled
    (Modifier.weight_ne_zero_of_tests h htargets) (h.length_eq ▸ hlength) (hunconverted a ha)

end Groups

/-- The result of a group with such members, if its conditions are these trials:
they recount the members, or the dice in the pool of a sole member, unless some
of those dice were counts before. -/
inductive Result.Recounted (trials : List Trial) (members : List Result) (r : Result) : Prop
  | pool {member sole : Result} : members = [member] → member.isPooled → r.shape = .group [sole] →
    r.value = sumTotals [sole] → sole.value = sumTotals sole.pool →
    ((∀ die ∈ member.pool, success die = false) →
      List.Forall₂ (Recounts trials) member.pool sole.pool) → Recounted trials members r
  | members {items : List Result} : (∀ member, members = [member] → member.isPooled = false) →
    r.shape = .group items → r.value = sumTotals items →
    List.Forall₂ (Recounts trials) members items → Recounted trials members r

/-- **A group tests what it counts.** If the modifiers of a group are successes and
failures whose conditions roll no dice, then a roll that succeeds leaves each of
its items that counts with its recount for a value. That is the score of the value
that the item had before, however many of the conditions were tested, exactly if
the conditions are undisturbed by the counts. -/
theorem Node.answer_roll_group_recount {first : Node} {rest : List Node}
    {mods : List (Modifier Node)} {label : Option String} (hmods : ∀ m ∈ mods, m.Fixed)
    (htargets : ∀ m ∈ mods, m.isTarget) (hsome : mods ≠ [])
    (hlength : mods.length ≤ Number.highest) {σ : Setting} {n d : Nat} {r : Result}
    (h : (term (.group first rest mods) label).roll.answer σ n = (.ok r, d)) :
    ∃ trials members, List.Forall₂ Modifier.Tests mods trials ∧
      ((first :: rest).mapM Node.roll).answer σ n = (.ok members, d) ∧
      r.Recounted trials members ∧
      ∀ v, (∀ k ≤ trials.length, Trial.recount (trials.take k) v = Trial.score (trials.take k) v) ↔
        Trial.Undisturbed trials v := by
  rw [Node.roll_term] at h
  obtain ⟨r, hr, rfl⟩ := Form.answer_rollLabelled_eq_ok h
  obtain ⟨results, e, hresults, hr⟩ := answer_rollGroup_eq_ok hr
  rw [← List.map_cons, List.mapM_map] at hresults
  rcases hr with ⟨member, dice, hsole, -, hpooled, hdice, rfl⟩ | ⟨hmany, items, hitems, rfl⟩
  · -- the conditions went through the sole member into its dice
    obtain ⟨trials, htrials⟩ := exists_trials resolvesTests_applyToItems hmods hdice
    obtain rfl : e = d := (Prod.mk.inj ((answer_foldlM_applyToItems htrials htargets
      member.pool).symm.trans hdice)).2
    obtain ⟨result, rfl⟩ : ∃ result, results = [result] :=
      List.length_eq_one_iff.1 (by simpa [numbered] using congrArg List.length hsole)
    obtain rfl : setOrder 0 result = member := by simpa [numbered] using hsole
    have hpool : (setOrder 0 result).pool = result.pool := Result.pool_congr (by simp)
    have hdice' := Result.pool_refill_refresh (changed_settle_foldlM hdice).length_eq.symm
    have hsole' (v : Number) : (setValue v ((setOrder 0 result).refill
        (settle (mods.map (Modifier.map Node.roll)) dice)).1.refresh).pool =
          settle (mods.map (Modifier.map Node.roll)) dice :=
      (Result.pool_congr (Result.shape_setValue ..)).trans hdice'
    refine ⟨trials, [result], htrials, hresults, .pool rfl ?_ (Result.shape_relabel ..)
      (Result.value_relabel ..) ?_ ?_,
      fun v => Trial.recount_eq_score_iff
        (Modifier.weight_ne_zero_of_tests htrials htargets)⟩
    · rwa [← Result.isPooled_congr (Result.shape_setOrder result 0)]
    · rw [hsole', Result.value, Result.outcome_setValue]
    · rw [hsole', ← hpool]
      exact forall₂_recounts htrials htargets hsome hlength hdice
  · -- the conditions were tried on the members themselves
    obtain ⟨trials, htrials⟩ := exists_trials resolvesTests_applyToItems hmods hitems
    obtain rfl : e = d := (Prod.mk.inj ((answer_foldlM_applyToItems htrials htargets
      (numbered results)).symm.trans hitems)).2
    -- no member is a count before, so the first condition that is met begins to count
    have hunconverted : ∀ r ∈ results, r.outcome.success = false := by
      refine Rolling.Gives.mapM (fun x hx => ?_) _ _ _ _ hresults
      exact Node.gives_roll_unconverted x
    refine ⟨trials, results, htrials, hresults, .members ?_ (Result.shape_relabel ..)
      (Result.value_relabel ..) ?_,
      fun v => Trial.recount_eq_score_iff
        (Modifier.weight_ne_zero_of_tests htrials htargets)⟩
    · rintro member rfl
      have := (hmany.resolve_left (by simpa using hsome)) (setOrder 0 member) rfl
      rwa [Result.isPooled_congr (Result.shape_setOrder member 0)] at this
    · refine forall₂_of_mapIdx_left (f := setOrder) (fun i a b h => ?_)
        (forall₂_recounts htrials htargets hsome hlength hitems fun a ha => ?_)
      · have hvalid : valid (setOrder i a) = valid a := by simp [valid]
        have hvalue : value (setOrder i a) = value a := by simp [value]
        exact ⟨h.success, h.valid_eq.trans hvalid, by simpa only [hvalid, hvalue] using h.value⟩
      · obtain ⟨i, hi, rfl⟩ := List.mem_mapIdx.1 ha
        simpa [success] using hunconverted _ (List.getElem_mem hi)

/-- Two dice in the pool of a sole member: the six is one success by its value, and
another by the count of the first. -/
theorem Node.answer_roll_group_recount_pool :
    let dice : Node := .term (.die { sides := .numeric (.int 6), count := .int 2 }) none
    let test (meaning : Test) (compare : Comparison) (target : Int64) : Modifier Node :=
      .test meaning ⟨compare, .int target⟩
    let mods := [test .success .atLeast 5, test .success .equal 1, test .failure .atMost 0]
    let tenths (k : Nat) : Double := .ofRatio false k 10
    let σ : Setting := ⟨.ofList [tenths 9, tenths 1], 1000⟩
    ∃ r, (term (.group dice [] mods) none).roll.answer σ 0 = (.ok r, 2) ∧
      ∃ trials members, List.Forall₂ Modifier.Tests mods trials ∧
        ([dice].mapM Node.roll).answer σ 0 = (.ok members, 2) ∧ r.Recounted trials members ∧
        ∀ v, (∀ k ≤ trials.length,
            Trial.recount (trials.take k) v = Trial.score (trials.take k) v) ↔
          Trial.Undisturbed trials v := by
  intro dice test mods tenths σ
  have hfixed (meaning : Test) (compare : Comparison) (target : Int64) :
      (test meaning compare target).Fixed :=
    ⟨rfl, by simpa [test, Modifier.operands] using diceless_int target⟩
  obtain ⟨r, hr⟩ : ∃ r, (term (.group dice [] mods) none).roll.answer σ 0 = (.ok r, 2) :=
    Rolling.exists_answer_eq_ok (by decide +kernel)
  have hmods : ∀ m ∈ mods, m.Fixed := by
    simpa [mods] using ⟨hfixed .., hfixed .., hfixed ..⟩
  have htargets : ∀ m ∈ mods, m.isTarget := by simp [mods, test, Modifier.isTarget]
  exact ⟨r, hr, Node.answer_roll_group_recount hmods htargets (by simp [mods]) (by decide) hr⟩

/-- **A count is tested for what it counts.** A five that meets the same condition
twice is one success and not two, since one is less than three; and of two
conditions that are written the other way round, the failure is met by the
success before it. -/
theorem Node.answer_roll_group_counts_counts :
    let group (mods : List (Modifier Node)) : Node := .term (.group (.int 5) [] mods) none
    let threes : Modifier Node := .test .success ⟨.atLeast, .int 3⟩
    let twos : Modifier Node := .test .failure ⟨.atMost, .int 2⟩
    let valueOf (node : Node) := (node.roll.answer ⟨.ofList [], 1000⟩ 0).1.toOption.map Result.value
    let trial : Trial := ⟨.success, ⟨.atLeast, .int 3⟩⟩
    valueOf (group [threes, threes]) = some (.int 1) ∧ Trial.score [trial, trial] (.int 5) = 2 ∧
      valueOf (group [threes, twos]) = some (.int 0) ∧
      valueOf (group [twos, threes]) = some (.int 1) := by
  decide +kernel

end DiceNotation
