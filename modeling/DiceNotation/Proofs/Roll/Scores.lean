import DiceNotation.Proofs.Roll.Again
import DiceNotation.Proofs.Roll.Trials
import Mathlib.Data.List.Perm.Basic

/-!
# Dice that count

Dice with a success or a failure among their targets end as counts: each die
that counts has the score of its face for a value, and every other one zero
(`Node.answer_roll_score`). A mark that a target sets in between, or a match
that marks the dice afterwards, has no part in it; nor has the order of the
targets, since the dice of two orders are the same but for their marks
(`RolledDie.unmark`), and nothing that comes after looks at marks.
-/

namespace DiceNotation

open Counted

/-! ## One die -/

namespace RolledDie

/-- The die is no count of successes yet. -/
def Unconverted (d : RolledDie) : Prop := d.outcome.success = false

theorem dieLaw_unconverted : DieLaw Unconverted where
  rolled _ _ _ := rfl
  exploded h := h
  setRoll h _ := h
  setTotal h _ := h
  replaced h := h
  setOrder h _ := h

/-- The die without its mark, and without the kind of die that has one. -/
def unmark (d : RolledDie) : RolledDie := { d with face := .fate }

/-- The die with the score of its face for a value, or none if it does not count. -/
def scored (trials : List Trial) (d : RolledDie) : RolledDie :=
  { d with outcome :=
    d.outcome.counted (if d.outcome.valid then Trial.score trials (faceValue d) else 0) }

/-- The die is a count, and if it counts, the count is the score of its face. -/
structure Scores (trials : List Trial) (d : RolledDie) : Prop where
  success : d.outcome.success = true
  value : d.outcome.valid = true →
    ∃ count : Int64, d.outcome.value = .int count ∧ count.toInt = Trial.score trials (faceValue d)

/-- A die scores what it counts, whatever its mark is. -/
theorem scores_of_unmark_eq {trials : List Trial} (hlength : trials.length ≤ Number.highest)
    {d base : RolledDie} (h : d.unmark = (base.scored trials).unmark) : d.Scores trials := by
  have houtcome : d.outcome = (base.scored trials).outcome := (congrArg outcome h :)
  have hface : faceValue d = faceValue base := (congrArg faceValue h :)
  have hscore := Trial.natAbs_score_le trials (faceValue base)
  refine ⟨by rw [houtcome]; rfl, fun hvalid => ?_⟩
  have hbase : base.outcome.valid = true := by rwa [houtcome] at hvalid
  refine ⟨.ofInt (Trial.score trials (faceValue base)), ?_, ?_⟩
  · rw [houtcome, scored, if_pos hbase]
    rfl
  · rw [hface, Number.toInt_ofInt (Number.fits_of_natAbs (by omega))]

/-- A mark is all that marking changes. -/
theorem unmark_mark (critical : Critical) (t : Trial) (d : RolledDie) :
    (t.mark critical d).unmark = d.unmark := by
  rw [Trial.mark, setCritical]
  split
  · split <;> rfl
  · rfl

theorem unmark_count (t : Trial) (d : RolledDie) :
    (t.count faceValue d).unmark = t.count faceValue d.unmark := by
  rw [Trial.count, countOne, apply_ite unmark, apply_ite unmark]
  rfl

theorem unmark_tried (t : Trial) (d : RolledDie) :
    (d.tried t).unmark = t.count faceValue d.unmark := by
  obtain ⟨meaning, condition⟩ := t
  cases meaning with
  | success | failure => exact unmark_count _ d
  | crit | critfail =>
    rw [Trial.count, if_neg (by simp [Test.weight])]
    exact unmark_mark _ _ d

/-- Trials count a die without its mark alike. -/
theorem unmark_foldl_tried (trials : List Trial) (d : RolledDie) :
    (trials.foldl (fun d t => d.tried t) d).unmark =
      trials.foldl (fun d t => t.count faceValue d) d.unmark := by
  induction trials generalizing d with
  | nil => rfl
  | cons t trials ih => rw [List.foldl_cons, List.foldl_cons, ih, unmark_tried]

theorem unmark_settled (d : RolledDie) : (settled d).unmark = settled d.unmark := by
  rw [settled, apply_ite unmark]
  rfl

/-- Counting sets outcomes, and never whether the die counts. -/
theorem count_eq (t : Trial) (d : RolledDie) :
    ∃ value success, t.count faceValue d =
      { d with outcome := { d.outcome with value := value, success := success } } := by
  rw [Trial.count, countOne]
  split
  · split
    · exact ⟨_, _, rfl⟩
    · exact ⟨_, _, rfl⟩
  · exact ⟨_, _, rfl⟩

/-- Counting changes the outcome of a die only. -/
theorem foldl_count_eq (trials : List Trial) (d : RolledDie) :
    ∃ outcome, trials.foldl (fun d t => t.count faceValue d) d = { d with outcome := outcome } := by
  induction trials generalizing d with
  | nil => exact ⟨d.outcome, rfl⟩
  | cons t trials ih =>
    obtain ⟨value, success, hcount⟩ := count_eq t d
    obtain ⟨outcome, hfold⟩ := ih (t.count faceValue d)
    exact ⟨outcome, by rw [List.foldl_cons, hfold, hcount]⟩

/-- **Every die is counted by its face**, whatever its value is meanwhile. The
invariant is what the die would be if it were settled now. -/
theorem outcome_settled_foldl_count {trials : List Trial} {d : RolledDie} {base : Outcome} {c : Int}
    (hvalid : d.outcome.valid = true) (h : (settled d).outcome = base.counted c)
    (hlength : c.natAbs + trials.length ≤ Number.highest) :
    (settled (trials.foldl (fun d t => t.count faceValue d) d)).outcome =
      base.counted (c + Trial.score trials (faceValue d)) := by
  induction trials generalizing d c with
  | nil => rw [List.foldl_nil, Trial.score_nil, Int.add_zero, h]
  | cons t trials ih =>
    obtain ⟨value, success, hcount⟩ := count_eq t d
    have hweight := t.meaning.natAbs_weight_le
    rw [List.length_cons] at hlength
    have hstep := Trial.outcome_settled_count faceValue t hvalid h
      (Number.fits_of_natAbs (by omega)) (Number.fits_of_natAbs (by omega))
    have hface : faceValue (t.count faceValue d) = faceValue d := by
      rw [hcount, faceValue, faceValue]
    rw [List.foldl_cons, ih (by rw [hcount]; exact hvalid) hstep, hface, Trial.score_cons,
      Int.add_assoc]
    split <;> omega

/-- **A die that counts has the score of its face**, up to its mark. -/
theorem unmark_settled_foldl_tried {trials : List Trial} {d : RolledDie} (h : d.Unconverted)
    (hlength : trials.length ≤ Number.highest) :
    (settled (trials.foldl (fun d t => d.tried t) d)).unmark = (d.scored trials).unmark := by
  rw [unmark_settled, unmark_foldl_tried]
  have hrest : settled (trials.foldl (fun d t => t.count faceValue d) d.unmark) =
      { d.unmark with
        outcome :=
          (settled (trials.foldl (fun d t => t.count faceValue d) d.unmark)).outcome } := by
    obtain ⟨outcome, hfold⟩ := foldl_count_eq trials d.unmark
    rw [hfold, settled]
    split <;> rfl
  have hstart : (settled d.unmark).outcome = d.outcome.counted 0 :=
    outcome_settled_of_success (a := d.unmark) h
  rw [hrest]
  cases hvalid : d.outcome.valid with
  | true =>
    have hcounted := outcome_settled_foldl_count (d := d.unmark) hvalid hstart
      (by simpa using hlength)
    rw [hcounted, scored, hvalid, if_pos rfl, Int.zero_add]
    rfl
  | false =>
    rw [foldl_count_of_invalid (a := d.unmark) faceValue trials hvalid, hstart, scored, hvalid,
      if_neg (by simp)]
    rfl

end RolledDie

/-! ## Dice but for their marks -/

open RolledDie (unmark)

theorem sumTotals_map_unmark (rolls : List RolledDie) :
    sumTotals (rolls.map unmark) = sumTotals rolls :=
  sumTotals_map (f := unmark) (fun _ => rfl) rolls

theorem map_unmark_markMatched (faces : List Int64) (rolls : List RolledDie) :
    (markMatched faces rolls).map unmark = markMatched faces (rolls.map unmark) := by
  rw [markMatched, markMatched, List.map_map, List.map_map]
  refine List.map_congr_left fun d _ => ?_
  rw [Function.comp_apply, Function.comp_apply, apply_ite unmark]
  rfl

section Conclude

variable {ε : Type} {rolls rolls' : List RolledDie}

theorem map_unmark_arrange (spec : DieSpec ε) (rolls : List RolledDie) :
    (spec.arrange rolls).map unmark = spec.arrange (rolls.map unmark) :=
  spec.map_arrange (f := unmark) (fun _ _ => rfl) (fun _ => rfl) rolls

/-- Arranged dice count alike whatever their marks are. -/
theorem sumTotals_arrange_congr (spec : DieSpec ε) (h : rolls.map unmark = rolls'.map unmark) :
    sumTotals (spec.arrange rolls) = sumTotals (spec.arrange rolls') := by
  rw [← sumTotals_map_unmark, map_unmark_arrange, h, ← map_unmark_arrange, sumTotals_map_unmark]

/-- A match looks at the faces of dice. -/
theorem Matching.faces_congr (m : Matching (Rolling Result))
    (h : rolls.map unmark = rolls'.map unmark) : m.faces rolls = m.faces rolls' := by
  have hrolls : rolls.map RolledDie.roll = rolls'.map RolledDie.roll := by
    have := congrArg (List.map RolledDie.roll) h
    rwa [List.map_map, List.map_map] at this
  simp only [faces, sharedFaces, hrolls]

variable {spec : DieSpec (Rolling Result)} {count r : Result} {sides : Sides Result}
  {σ : Setting} {n d : Nat}

/-- **What comes after the targets** has the same value for dice that differ in
their marks alone. -/
theorem DieSpec.answer_conclude_congr (targets : List (Modifier (Rolling Result)))
    (h : rolls.map unmark = rolls'.map unmark)
    (hr : (spec.conclude count sides rolls).answer σ n = (.ok r, d)) :
    ∃ r', ({ spec with targets := targets }.conclude count sides rolls').answer σ n = (.ok r', d) ∧
      r'.value = r.value := by
  rcases DieSpec.answer_conclude_eq_ok hr with ⟨hmatching, rfl, rfl⟩ | ⟨m, faces, hm, hfaces, rfl⟩
  · refine ⟨.dice count sides (spec.arrange rolls'), ?_, sumTotals_arrange_congr spec h.symm⟩
    simp [conclude, hmatching, arrange]
  · have hmatched := congrArg (markMatched faces) h
    rw [← map_unmark_markMatched, ← map_unmark_markMatched] at hmatched
    rw [m.faces_congr h] at hfaces
    refine ⟨if m.counts then .matchedDice count sides
        (spec.arrange (markMatched faces rolls')) faces.length
      else .dice count sides (spec.arrange (markMatched faces rolls')), ?_, ?_⟩
    · simp [conclude, hm, hfaces, arrange, Rolling.answer_map, Except.map]
    · split
      · rfl
      · exact sumTotals_arrange_congr spec hmatched.symm

/-- A result that does not count matches is the sum of its dice, and what is true
of the dice, whatever their place and their marks, is true of those in it. -/
theorem DieSpec.value_of_answer_conclude {Q : RolledDie → Prop}
    (hQ : ∀ {d : RolledDie}, Q d → ∀ order, Q (setOrder order d))
    (hmatched : ∀ {d : RolledDie}, Q d → Q { d with matched := true })
    (hmatching : ∀ m ∈ spec.matching, m.counts = false) (h : ∀ d ∈ rolls, Q d)
    (hr : (spec.conclude count sides rolls).answer σ n = (.ok r, d)) :
    (∀ die ∈ r.shape.rolls, Q die) ∧ r.value = sumTotals r.shape.rolls := by
  rcases DieSpec.answer_conclude_eq_ok hr with ⟨-, -, rfl⟩ | ⟨m, faces, hm, -, rfl⟩
  · exact ⟨spec.forall_mem_arrange hQ h, rfl⟩
  · rw [if_neg (by simp [hmatching m hm])]
    refine ⟨spec.forall_mem_arrange hQ fun d hd => ?_, rfl⟩
    obtain ⟨die, hdie, rfl⟩ := List.mem_map.1 hd
    split
    · exact hmatched (h die hdie)
    · exact h die hdie

end Conclude

/-! ## Dice of one specification -/

/-- Keeping, dropping and rolling again convert nothing. -/
theorem gives_applyToDice_unconverted {m : Modifier (Rolling Result)} (hm : m.isMechanical)
    (kind : DieType) {rolls : List RolledDie} (h : ∀ d ∈ rolls, d.Unconverted) :
    (m.applyToDice kind rolls).Gives fun rolls => ∀ d ∈ rolls, d.Unconverted := by
  match m with
  | .select action extreme count =>
    refine Rolling.gives_bind fun r => Rolling.gives_pure ?_
    rw [selectItems, discardAt_eq_mapIdx]
    intro d hd
    obtain ⟨i, hi, rfl⟩ := List.mem_mapIdx.1 hd
    have hitem : rolls[i].Unconverted := h _ (List.getElem_mem hi)
    split
    · exact hitem
    · exact hitem
  | .again mechanic (some _) =>
    exact Rolling.gives_bind fun _ => RolledDie.dieLaw_unconverted.gives_mechanic mechanic h
  | .again mechanic none => exact RolledDie.dieLaw_unconverted.gives_mechanic mechanic h
  | .test .. | .unsupported => cases hm

/-- The dice before the targets. -/
def DieSpec.rollMechanics (spec : DieSpec (Rolling Result)) (kind : DieType) (k : Nat) :
    Rolling (List RolledDie) := do
  spec.mods.foldlM (Modifier.applyToDice kind) (← kind.rollMany k)

section Dice

variable {spec : DieSpec Node} {trials : List Trial} {kind : DieType} {k n d : Nat} {σ : Setting}
  {rolls : List RolledDie}

/-- Before the targets no die has been converted. -/
theorem DieSpec.gives_rollMechanics_unconverted (hmods : ∀ m ∈ spec.mods, m.isMechanical) :
    ((spec.map Node.roll).rollMechanics kind k).Gives fun rolls => ∀ d ∈ rolls, d.Unconverted := by
  refine (RolledDie.dieLaw_unconverted.gives_rollMany kind k).bind fun rolls h => ?_
  refine Rolling.Gives.foldlM (fun m hm rolls h => gives_applyToDice_unconverted ?_ kind h) h
  obtain ⟨m', hm', rfl⟩ := List.mem_map.1 hm
  rw [Modifier.isMechanical_map]
  exact hmods m' hm'

/-- Known targets count the dice one by one, and draw nothing. -/
theorem DieSpec.answer_rollDice_of_tests (htrials : List.Forall₂ Modifier.Tests spec.targets trials)
    (hcounting : spec.targets.any Modifier.isTarget)
    (h : ((spec.map Node.roll).rollMechanics kind k).answer σ n = (.ok rolls, d)) :
    ((spec.map Node.roll).rollDice kind k).answer σ n =
      (.ok (rolls.map fun d => settled (trials.foldl (fun d t => d.tried t) d)), d) := by
  obtain ⟨rolled, e, hrolled, hmods⟩ := Rolling.answer_bind_eq_ok.1 h
  have htargets := answer_foldlM_applyToDice (σ := σ) (n := d) htrials kind rolls
  rw [map] at hmods
  simp only [rollDice, map, Rolling.answer_bind, hrolled, hmods, htargets]
  rw [Rolling.answer_pure, settle_map_modifiers, settle_eq_map hcounting, List.map_map]
  rfl

/-- **The dice of a specification that counts**, up to their marks. -/
theorem DieSpec.exists_trials_of_answer_rollDice (hmods : ∀ m ∈ spec.mods, m.isMechanical)
    (htargets : ∀ m ∈ spec.targets, m.Fixed)
    (h : ((spec.map Node.roll).rollDice kind k).answer σ n = (.ok rolls, d)) :
    ∃ trials modified, List.Forall₂ Modifier.Tests spec.targets trials ∧
      (∀ d ∈ modified, d.Unconverted) ∧
      ((spec.map Node.roll).rollMechanics kind k).answer σ n = (.ok modified, d) := by
  simp only [rollDice, Rolling.answer_bind_eq_ok] at h
  obtain ⟨rolled, e₁, hrolled, modified, e₂, hmodified, tested, e₃, htested, h⟩ := h
  cases h
  obtain ⟨trials, htrials⟩ := exists_trials (resolvesTests_applyToDice kind) htargets htested
  rw [map, answer_foldlM_applyToDice htrials] at htested
  cases htested
  have hmechanics : ((spec.map Node.roll).rollMechanics kind k).answer σ n = (.ok modified, d) :=
    Rolling.answer_bind_eq_ok.2 ⟨rolled, e₁, hrolled, hmodified⟩
  exact ⟨trials, modified, htrials,
    gives_rollMechanics_unconverted hmods σ n modified d hmechanics, hmechanics⟩

end Dice

/-- **The dice of two orders of the targets** are the same but for their marks. -/
theorem map_unmark_of_perm {trials trials' : List Trial} (h : trials.Perm trials')
    (hlength : trials.length ≤ Number.highest) {rolls : List RolledDie}
    (hrolls : ∀ d ∈ rolls, d.Unconverted) :
    (rolls.map fun d => settled (trials.foldl (fun d t => d.tried t) d)).map unmark =
      (rolls.map fun d => settled (trials'.foldl (fun d t => d.tried t) d)).map unmark := by
  rw [List.map_map, List.map_map]
  refine List.map_congr_left fun d hd => ?_
  have hscored : d.scored trials = d.scored trials' := by
    rw [RolledDie.scored, RolledDie.scored, Trial.score_perm h]
  rw [Function.comp_apply, Function.comp_apply,
    RolledDie.unmark_settled_foldl_tried (hrolls d hd) hlength, hscored,
    RolledDie.unmark_settled_foldl_tried (hrolls d hd) (h.length_eq ▸ hlength)]

/-! ## Expressions -/

/-- **Targets count conditions.** If the targets of a specification are tests
whose conditions roll no dice, and one of them is a success or a failure, then
whatever was kept, dropped or rolled again before, a roll that succeeds leaves
every die converted. Each die that counts has the number of successes that its
face meets for a value, less that of failures, and the value of the roll is their
sum. Any other order of the targets draws as much and gives the same value. -/
theorem Node.answer_roll_score {spec : DieSpec Node} {label : Option String}
    (hmods : ∀ m ∈ spec.mods, m.isMechanical) (htargets : ∀ m ∈ spec.targets, m.Fixed)
    (hcounting : spec.targets.any Modifier.isTarget)
    (hlength : spec.targets.length ≤ Number.highest)
    (hmatching : ∀ m ∈ spec.matching, m.counts = false) {σ : Setting} {n d : Nat} {r : Result}
    (h : (term (.die spec) label).roll.answer σ n = (.ok r, d)) :
    ∃ trials, List.Forall₂ Modifier.Tests spec.targets trials ∧
      (∀ die ∈ r.shape.rolls, die.Scores trials) ∧ r.value = sumTotals r.shape.rolls ∧
      ∀ targets', targets'.Perm spec.targets → ∃ r',
        (term (.die { spec with targets := targets' }) label).roll.answer σ n = (.ok r', d) ∧
          r'.value = r.value := by
  rw [Node.roll_term] at h
  obtain ⟨r, hr, rfl⟩ := Form.answer_rollLabelled_eq_ok h
  obtain ⟨count, e₁, hc, k, e₂, hk, sides, kind, e₃, hs, rolls, e₄, hrolls, hr⟩ :=
    DieSpec.answer_roll_eq_ok.1 hr
  obtain ⟨trials, modified, htrials, hunconverted, hmechanics⟩ :=
    DieSpec.exists_trials_of_answer_rollDice hmods htargets hrolls
  have hcounted := DieSpec.answer_rollDice_of_tests htrials hcounting hmechanics
  obtain rfl : rolls = modified.map fun d => settled (trials.foldl (fun d t => d.tried t) d) := by
    simpa using hrolls.symm.trans hcounted
  have hlength' : trials.length ≤ Number.highest := htrials.length_eq ▸ hlength
  have hscores : ∀ die ∈ modified.map fun d => settled (trials.foldl (fun d t => d.tried t) d),
      die.Scores trials := by
    intro die hdie
    obtain ⟨d, hd, rfl⟩ := List.mem_map.1 hdie
    exact RolledDie.scores_of_unmark_eq hlength'
      (RolledDie.unmark_settled_foldl_tried (hunconverted d hd) hlength')
  have hcounts : ∀ m ∈ (spec.map Node.roll).matching, m.counts = false := by
    intro m hm
    obtain ⟨m', hm', rfl⟩ := Option.map_eq_some_iff.1 hm
    exact hmatching m' hm'
  -- laying the dice out and matching them leaves their scores
  obtain ⟨hdice, hvalue⟩ := DieSpec.value_of_answer_conclude (Q := RolledDie.Scores trials)
    (fun h _ => ⟨h.success, h.value⟩) (fun h => ⟨h.success, h.value⟩) hcounts hscores hr
  refine ⟨trials, htrials, by simpa using hdice, ?_, fun targets' hperm => ?_⟩
  · rw [Result.shape_relabel, Result.value_relabel, hvalue]
  · -- in another order the trials leave the same dice but for their marks
    obtain ⟨trials', htrials', hperm'⟩ := List.perm_comp_forall₂ hperm htrials
    have hcounting' : targets'.any Modifier.isTarget := by rwa [hperm.any_eq]
    have hcounted' : ((DieSpec.map Node.roll { spec with targets := targets' }).rollDice kind
        k).answer σ e₃ = (.ok _, e₄) :=
      DieSpec.answer_rollDice_of_tests htrials' hcounting' hmechanics
    obtain ⟨r', hr', hvalue'⟩ := DieSpec.answer_conclude_congr
      (targets'.map (Modifier.map Node.roll))
      (map_unmark_of_perm hperm'.symm hlength' hunconverted) hr
    refine ⟨r'.relabel label, ?_, by rw [Result.value_relabel, Result.value_relabel, hvalue']⟩
    rw [Node.roll_term]
    refine Rolling.answer_bind_eq_ok.2 ⟨r', d, ?_, rfl⟩
    exact DieSpec.answer_roll_eq_ok.2
      ⟨count, e₁, hc, k, e₂, hk, sides, kind, e₃, hs, _, e₄, hcounted', hr'⟩

/-- Three dice, of which one explodes and one is dropped. A five is a success, a
six is another one, a one is a failure, and a mark is set in between. -/
theorem Node.answer_roll_score_stacked :
    let test (meaning : Test) (compare : Comparison) (face : Int64) : Modifier Node :=
      .test meaning ⟨compare, .int face⟩
    let spec : DieSpec Node := {
      sides := .numeric (.int 6), count := .int 3,
      mods := [.again .explode none, .select .drop none (.int 1)]
      targets := [test .success .atLeast 5, test .crit .equal 5, test .failure .equal 1,
        test .success .equal 6] }
    let tenths (k : Nat) : Double := .ofRatio false k 10
    let σ : Setting := ⟨.ofList [tenths 0, tenths 9, tenths 8, tenths 1], 1000⟩
    ∃ r, (term (.die spec) none).roll.answer σ 0 = (.ok r, 4) ∧
      ∃ trials, List.Forall₂ Modifier.Tests spec.targets trials ∧
        (∀ die ∈ r.shape.rolls, die.Scores trials) ∧ r.value = sumTotals r.shape.rolls ∧
        ∀ targets', targets'.Perm spec.targets → ∃ r',
          (term (.die { spec with targets := targets' }) none).roll.answer σ 0 = (.ok r', 4) ∧
            r'.value = r.value := by
  intro test spec tenths σ
  have hfixed (meaning : Test) (compare : Comparison) (face : Int64) :
      (test meaning compare face).Fixed :=
    ⟨rfl, by simpa [test, Modifier.operands] using diceless_int face⟩
  obtain ⟨r, hr⟩ : ∃ r, (term (.die spec) none).roll.answer σ 0 = (.ok r, 4) :=
    Rolling.exists_answer_eq_ok (by decide +kernel)
  have htargets : ∀ m ∈ spec.targets, m.Fixed := by
    simpa [spec] using ⟨hfixed .., hfixed .., hfixed .., hfixed ..⟩
  exact ⟨r, hr, Node.answer_roll_score (by simp [spec, Modifier.isMechanical]) htargets rfl
    (by decide) (by simp [spec]) hr⟩

end DiceNotation
