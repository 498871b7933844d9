import DiceNotation.Proofs.Roll.Cosmetic
import DiceNotation.Proofs.Roll.Trials

/-!
# Marks after targets

A die that counts goes through the targets in written order, and each mark among them
sets or clears its own kind. The first success or failure that the die meets turns it
into a count, and from there on marks pass it by. So the mark that a die ends with is
the one that it had, changed by the marks that stand before that target
(`Node.answer_roll_marks`), and the targets behind it have no part in it, which makes
the order of targets count (`Node.answer_roll_marks_late`).
-/

namespace DiceNotation

open Counted

/-! ## One die -/

namespace Trial

/-- What the trial makes of the mark on a die that shows `roll` and is no count yet. -/
def remark (roll : Int64) (mark : Option Critical) (t : Trial) : Option Critical :=
  match t.meaning with
  | .crit => Critical.success.update (t.condition.meets (.int roll)) mark
  | .critfail => Critical.failure.update (t.condition.meets (.int roll)) mark
  | .success | .failure => mark

/-- The trial turns a die that shows `roll` into a count. -/
def converts (roll : Int64) (t : Trial) : Bool :=
  t.meaning.weight ≠ 0 && t.condition.meets (.int roll)

/-- Only targets that mark change a mark. -/
theorem remark_of_weight {t : Trial} (h : t.meaning.weight ≠ 0) (roll : Int64)
    (mark : Option Critical) : t.remark roll mark = mark := by
  obtain ⟨meaning, condition⟩ := t
  cases meaning with
  | success | failure => rfl
  | crit | critfail => exact absurd rfl h

end Trial

namespace RolledDie

/-- Targets that count change the outcome only. -/
theorem exists_count_eq {t : Trial} (h : t.meaning.weight ≠ 0) (d : RolledDie) :
    ∃ value, t.count faceValue d = { d with
      outcome := { d.outcome with
        value := value
        success := d.outcome.success || (d.outcome.valid && t.converts d.roll) } } := by
  cases hhit : d.outcome.valid && t.converts d.roll with
  | false =>
    have hmiss : ¬(t.meaning.weight ≠ 0 ∧ valid d ∧ t.condition.meets (faceValue d)) := by
      rintro ⟨-, hvalid, hmeets⟩
      have : (d.outcome.valid && t.converts d.roll) = true := by
        rw [Bool.and_eq_true, Trial.converts, Bool.and_eq_true, decide_eq_true_eq]
        exact ⟨hvalid, h, hmeets⟩
      rw [this] at hhit
      cases hhit
    exact ⟨d.outcome.value, by rw [Trial.count, if_neg hmiss, Bool.or_false]⟩
  | true =>
    rw [Bool.and_eq_true, Trial.converts, Bool.and_eq_true] at hhit
    rw [Trial.count, if_pos ⟨h, hhit.1, hhit.2.2⟩, countOne, Bool.or_true]
    split
    next hsuccess =>
      exact ⟨_, congrArg (fun success => setOutcome
        { d.outcome with value := _, success := success } d) hsuccess⟩
    next => exact ⟨_, rfl⟩

/-- **One trial** may change the value of a die, whether it is a count, and its mark:
the mark only while the die counts and is no count yet. -/
theorem exists_tried_eq (t : Trial) (d : RolledDie) :
    ∃ value, d.tried t = { d with
      outcome := { d.outcome with
        value := value
        success := d.outcome.success || (d.outcome.valid && t.converts d.roll) }
      face :=
        if d.outcome.valid && !d.outcome.success then d.face.mapMark (t.remark d.roll · )
        else d.face } := by
  obtain ⟨meaning, condition⟩ := t
  have hface (c : Bool) : (if c then d.face.mapMark id else d.face) = d.face := by simp
  have hweight : Test.success.weight ≠ 0 ∧ Test.failure.weight ≠ 0 := by decide
  cases meaning with
  | success =>
    obtain ⟨value, hvalue⟩ := exists_count_eq (t := ⟨.success, condition⟩) hweight.1 d
    refine ⟨value, hvalue.trans ?_⟩
    congr 1
    exact (hface _).symm
  | failure =>
    obtain ⟨value, hvalue⟩ := exists_count_eq (t := ⟨.failure, condition⟩) hweight.2 d
    refine ⟨value, hvalue.trans ?_⟩
    congr 1
    exact (hface _).symm
  | crit | critfail =>
    obtain ⟨⟨value, valid, success, order, label⟩, face, roll⟩ := d
    refine ⟨value, ?_⟩
    cases valid <;> cases success <;> cases face <;> rfl

/-! ### All trials -/

/-- The mark that the trials leave on a die: those before the first that turns it
into a count change it. A die that does not count, or is a count already, keeps its
mark. -/
def markAfter (trials : List Trial) (d : RolledDie) (mark : Option Critical) : Option Critical :=
  if d.outcome.valid && !d.outcome.success then
    (trials.takeWhile fun t => !t.converts d.roll).foldl (Trial.remark d.roll) mark
  else mark

/-- Marks are set up to the target that converts the die. -/
theorem markAfter_of_uncounted {d : RolledDie} (h : (d.outcome.valid && !d.outcome.success) = true)
    (trials : List Trial) : d.markAfter trials = fun mark =>
      (trials.takeWhile fun t => !t.converts d.roll).foldl (Trial.remark d.roll) mark :=
  funext fun _ => if_pos h

/-- A die that counts already, or is out, keeps its mark. -/
theorem markAfter_of_counted {d : RolledDie} (h : (d.outcome.valid && !d.outcome.success) = false)
    (trials : List Trial) : d.markAfter trials = id :=
  funext fun _ => if_neg (by simp [h])

theorem markAfter_nil (d : RolledDie) : d.markAfter [] = id := by
  funext mark
  rw [markAfter]
  split <;> rfl

/-- A mark stands behind the first trial that turns the die into a count. -/
def HasLateMark (trials : List Trial) (d : RolledDie) : Prop :=
  ∃ t ∈ trials.dropWhile fun t => !t.converts d.roll, t.meaning.weight = 0

/-- Without a late mark, the mark goes through all trials. -/
theorem markAfter_eq_foldl {trials : List Trial} {d : RolledDie} (hvalid : d.outcome.valid = true)
    (hsuccess : d.outcome.success = false) (hlate : ¬d.HasLateMark trials) :
    d.markAfter trials = fun mark => trials.foldl (Trial.remark d.roll) mark := by
  rw [markAfter_of_uncounted (by simp [hvalid, hsuccess])]
  funext mark
  conv_rhs =>
    rw [← List.takeWhile_append_dropWhile (p := fun t => !t.converts d.roll) (l := trials)]
  rw [List.foldl_append, List.foldl_ext _ (fun mark _ => mark) _ fun mark t ht =>
    Trial.remark_of_weight (fun hweight => hlate ⟨t, ht, hweight⟩) d.roll mark, List.foldl_fixed]

/-- The second die is the first after the trials, as far as marks go. -/
structure MarkedBy (trials : List Trial) (d d' : RolledDie) : Prop where
  roll_eq : d'.roll = d.roll
  valid_eq : d'.outcome.valid = d.outcome.valid
  face_eq : d'.face = d.face.mapMark (d.markAfter trials)
  in_turn : d.outcome.valid = true → d.outcome.success = false → ¬d.HasLateMark trials →
    d'.face = d.face.mapMark fun mark => trials.foldl (Trial.remark d.roll) mark

theorem MarkedBy.intro {trials : List Trial} {d d' : RolledDie} (hroll : d'.roll = d.roll)
    (hvalid : d'.outcome.valid = d.outcome.valid)
    (hface : d'.face = d.face.mapMark (d.markAfter trials)) : d.MarkedBy trials d' :=
  ⟨hroll, hvalid, hface, fun hvalid hsuccess hlate => by
    rw [hface, markAfter_eq_foldl hvalid hsuccess hlate]⟩

/-- **A die goes through the trials one by one**: the first is tried, and the others
find the die that it leaves. -/
theorem markedBy_foldl_tried (trials : List Trial) (d : RolledDie) :
    d.MarkedBy trials (trials.foldl (fun d t => d.tried t) d) := by
  induction trials generalizing d with
  | nil => exact .intro rfl rfl (by simp [markAfter_nil])
  | cons t trials ih =>
    obtain ⟨value, htried⟩ := exists_tried_eq t d
    obtain ⟨hroll, hvalid, hface, -⟩ := ih (d.tried t)
    rw [List.foldl_cons]
    refine .intro (hroll.trans (by rw [htried])) (hvalid.trans (by rw [htried])) (hface.trans ?_)
    cases hcounts : d.outcome.valid && !d.outcome.success with
    | false =>
      have hstill : ((d.tried t).outcome.valid && !(d.tried t).outcome.success) = false := by
        rw [htried]
        revert hcounts
        cases d.outcome.valid <;> cases d.outcome.success <;> simp
      rw [markAfter_of_counted hstill, markAfter_of_counted hcounts, htried, hcounts]
      rfl
    | true =>
      obtain ⟨hvalid', hsuccess⟩ : d.outcome.valid = true ∧ d.outcome.success = false := by
        simpa using hcounts
      have hnow : (d.tried t).face = d.face.mapMark (t.remark d.roll ·) := by
        rw [htried, hcounts, if_pos rfl]
      rw [markAfter_of_uncounted hcounts, hnow, Face.mapMark_mapMark]
      cases hconverts : t.converts d.roll with
      | true =>
        -- the die is a count from here on
        have hstill : ((d.tried t).outcome.valid && !(d.tried t).outcome.success) = false := by
          rw [htried, hvalid', hsuccess, hconverts]
          rfl
        have hweight : t.meaning.weight ≠ 0 := by
          rw [Trial.converts, Bool.and_eq_true, decide_eq_true_eq] at hconverts
          exact hconverts.1
        rw [markAfter_of_counted hstill, List.takeWhile_cons_of_neg (by simp [hconverts])]
        exact congrArg d.face.mapMark
          (funext fun mark => Trial.remark_of_weight hweight d.roll mark)
      | false =>
        have hstill : ((d.tried t).outcome.valid && !(d.tried t).outcome.success) = true := by
          rw [htried, hvalid', hsuccess, hconverts]
          rfl
        have hroll' : (d.tried t).roll = d.roll := by rw [htried]
        rw [markAfter_of_uncounted hstill, hroll', List.takeWhile_cons_of_pos (by simp [hconverts])]
        rfl

/-- What leaves the face, the mark and the validity of a die alone. -/
theorem MarkedBy.of_eq {trials : List Trial} {d d' d'' : RolledDie} (h : d.MarkedBy trials d')
    (hroll : d''.roll = d'.roll) (hvalid : d''.outcome.valid = d'.outcome.valid)
    (hface : d''.face = d'.face) : d.MarkedBy trials d'' :=
  .intro (hroll.trans h.roll_eq) (hvalid.trans h.valid_eq) (hface.trans h.face_eq)

end RolledDie

/-! ## Dice of one specification -/

/-- Dice that are laid out after something was done to each of them, in an order that
they could have had before. -/
theorem DieSpec.exists_perm_arrange {ε : Type} (spec : DieSpec ε) {f : RolledDie → RolledDie}
    (hroll : ∀ d, (f d).roll = d.roll) {R : RolledDie → RolledDie → Prop} (hf : ∀ d, R d (f d))
    (horder : ∀ order d d', R d d' → R d (setOrder order d')) (rolls : List RolledDie) :
    ∃ dice : List RolledDie, dice.Perm rolls ∧
      List.Forall₂ R dice (spec.arrange (rolls.map f)) := by
  have hmap (dice : List RolledDie) : List.Forall₂ R dice (dice.map f) :=
    List.forall₂_map_right_iff.2 (List.forall₂_same.2 fun d _ => hf d)
  rw [arrange]
  split
  next order _ =>
    obtain ⟨before, happly, hbefore⟩ : ∃ before : RolledDie → RolledDie → Bool,
        (∀ rolls, order.apply rolls = numbered (rolls.mergeSort before)) ∧
          ∀ a b, before (f a) (f b) = before a b := by
      cases order with
      | ascending => exact ⟨fun a b => decide (a.roll ≤ b.roll), fun _ => rfl, by simp [hroll]⟩
      | descending => exact ⟨fun a b => decide (b.roll ≤ a.roll), fun _ => rfl, by simp [hroll]⟩
    have hsorted : (rolls.mergeSort before).map f = (rolls.map f).mergeSort before :=
      List.map_mergeSort fun a _ b _ => (hbefore a b).symm
    refine ⟨rolls.mergeSort before, List.mergeSort_perm .., ?_⟩
    rw [happly, ← hsorted]
    exact forall₂_mapIdx_right horder (hmap _)
  next => exact ⟨rolls, .refl _, hmap rolls⟩

/-- What counts for nothing in the end keeps its face and its mark. -/
theorem exists_settle_eq_map {ε : Type} (mods : List (Modifier ε)) :
    ∃ g : RolledDie → RolledDie, (∀ rolls, settle mods rolls = rolls.map g) ∧
      ∀ d, (g d).roll = d.roll ∧ (g d).outcome.valid = d.outcome.valid ∧ (g d).face = d.face := by
  cases htarget : mods.any Modifier.isTarget with
  | true =>
    refine ⟨settled, settle_eq_map htarget, fun d => ?_⟩
    rw [settled]
    split <;> exact ⟨rfl, rfl, rfl⟩
  | false => exact ⟨id, fun rolls => by simp [settle, htarget], fun d => ⟨rfl, rfl, rfl⟩⟩

/-- The specification without what comes after its first modifiers. -/
def DieSpec.untested {ε : Type} (spec : DieSpec ε) : DieSpec ε :=
  { spec with targets := [], matching := none, sort := none }

/-- **Marks follow the targets that find their die uncounted.** If the targets of a
specification are tests whose conditions roll no dice, and its roll succeeds, then they
found the dice that the specification gives without them. Each die keeps its face and
whether it counts. The mark of a numeric die that counts and was no count of successes
is the one that it had, changed in written order by the marks that stand before the
first success or failure that the die meets; if no mark stands behind that, those are
all marks there are. Every other die keeps its mark. -/
theorem Node.answer_roll_marks {spec : DieSpec Node} {label : Option String}
    (htargets : ∀ m ∈ spec.targets, m.Fixed) {σ : Setting} {n d : Nat} {r : Result}
    (h : (term (.die spec) label).roll.answer σ n = (.ok r, d)) :
    ∃ trials untested e dice, List.Forall₂ Modifier.Tests spec.targets trials ∧
      (term (.die spec.untested) label).roll.answer σ n = (.ok untested, e) ∧
      List.Perm dice untested.shape.rolls ∧
      List.Forall₂ (RolledDie.MarkedBy trials) dice r.shape.rolls := by
  rw [Node.roll_term] at h
  obtain ⟨bare, hbare, rfl⟩ := Form.answer_rollLabelled_eq_ok h
  obtain ⟨count, e₁, hc, k, e₂, hk, sides, kind, e₃, hs, rolls, e₄, hrolls, hconclude⟩ :=
    DieSpec.answer_roll_eq_ok.1 hbare
  simp only [DieSpec.rollDice, Rolling.answer_bind_eq_ok] at hrolls
  obtain ⟨rolled, e₅, hrolled, modified, e₆, hmodified, tested, e₇, htested, hsettled⟩ := hrolls
  obtain ⟨trials, htrials⟩ := exists_trials (resolvesTests_applyToDice kind) htargets htested
  have hdice := answer_foldlM_applyToDice (σ := σ) (n := e₆) htrials kind modified
  cases htested.symm.trans hdice
  cases hsettled
  obtain ⟨faces, matched, hshape⟩ := DieSpec.exists_shape_of_answer_conclude hconclude
  obtain ⟨final, hfinal, hkept⟩ := exists_settle_eq_map (spec.map Node.roll).targets
  rw [hfinal, markMatched, List.map_map, List.map_map] at hshape
  -- one die, from the targets to its place in the result
  have hmarked (d : RolledDie) : d.MarkedBy trials
      (((fun d => if d.roll ∈ faces then { d with matched := true } else d) ∘
        final ∘ fun d => trials.foldl (fun d t => d.tried t) d) d) := by
    obtain ⟨hroll, hvalid, hface⟩ := hkept (trials.foldl (fun d t => d.tried t) d)
    have hsettled := (d.markedBy_foldl_tried trials).of_eq hroll hvalid hface
    dsimp only [Function.comp_apply]
    split
    · exact hsettled.of_eq rfl rfl rfl
    · exact hsettled
  obtain ⟨dice, hperm, hdice⟩ := DieSpec.exists_perm_arrange (spec.map Node.roll)
    (fun d => (hmarked d).roll_eq) hmarked (fun order d d' h => h.of_eq rfl rfl rfl) modified
  have huntested : (spec.untested.map Node.roll).roll.answer σ n =
      (.ok (.dice count sides modified), e₄) :=
    DieSpec.answer_roll_eq_ok.2 ⟨count, e₁, hc, k, e₂, hk, sides, kind, e₃, hs, modified, e₄,
      Rolling.answer_bind_eq_ok.2 ⟨rolled, e₅, hrolled, Rolling.answer_bind_eq_ok.2
        ⟨modified, e₄, hmodified, rfl⟩⟩, rfl⟩
  refine ⟨trials, (Result.dice count sides modified).relabel label, e₄, dice, htrials, ?_, ?_, ?_⟩
  · rw [Node.roll_term]
    exact Rolling.answer_bind_eq_ok.2 ⟨_, e₄, huntested, rfl⟩
  · rw [Result.shape_relabel]
    exact hperm
  · rw [Result.shape_relabel, hshape]
    exact hdice

/-- Two dice of which one explodes, which are matched and sorted in the end, with
successes and marks in turn. -/
theorem Node.answer_roll_marks_between :
    let test (meaning : Test) (compare : Comparison) (face : Int64) : Modifier Node :=
      .test meaning ⟨compare, .int face⟩
    let spec : DieSpec Node := {
      sides := .numeric (.int 6), count := .int 2, mods := [.again .explode none],
      targets := [test .critfail .atMost 3, test .success .atLeast 5, test .crit .equal 3,
        test .failure .equal 1]
      matching := some ⟨.int 2, false, none, none⟩, sort := some .descending }
    let tenths (k : Nat) : Double := .ofRatio false k 10
    let σ : Setting := ⟨.ofList [tenths 9, tenths 4, tenths 0], 1000⟩
    (∀ m ∈ spec.targets, m.Fixed) ∧
      ∃ r, (term (.die spec) none).roll.answer σ 0 = (.ok r, 3) ∧
        ∃ trials untested e dice, List.Forall₂ Modifier.Tests spec.targets trials ∧
          (term (.die spec.untested) none).roll.answer σ 0 = (.ok untested, e) ∧
          List.Perm dice untested.shape.rolls ∧
          List.Forall₂ (RolledDie.MarkedBy trials) dice r.shape.rolls := by
  intro test spec tenths σ
  have hfixed (meaning : Test) (compare : Comparison) (face : Int64) :
      (test meaning compare face).Fixed :=
    ⟨rfl, by simpa [test, Modifier.operands] using diceless_int face⟩
  have htargets : ∀ m ∈ spec.targets, m.Fixed := by
    simpa [spec] using ⟨hfixed .., hfixed .., hfixed .., hfixed ..⟩
  obtain ⟨r, hr⟩ : ∃ r, (term (.die spec) none).roll.answer σ 0 = (.ok r, 3) :=
    Rolling.exists_answer_eq_ok (by decide +kernel)
  exact ⟨htargets, r, hr, Node.answer_roll_marks htargets hr⟩

/-- A die that shows a one has the mark of a failure. Two targets find it, a success
from one on and a critical one at one. In this order the die is a count before the mark
comes, and keeps the failure, though all marks in turn make it a success; in the other
order they do. -/
theorem Node.answer_roll_marks_late :
    let success : Modifier Node := .test .success ⟨.atLeast, .int 1⟩
    let crit : Modifier Node := .test .crit ⟨.equal, .int 1⟩
    let trials : List Trial :=
      [⟨.success, ⟨.atLeast, .int 1⟩⟩, ⟨.crit, ⟨.equal, .int 1⟩⟩]
    let shown (targets : List (Modifier Node)) : Option (List (Option Critical × Bool)) :=
      let spec : DieSpec Node :=
        { sides := .numeric (.int 6), count := .int 1, targets := targets }
      ((term (.die spec) none).roll.answer ⟨.ofList [.zero], 1000⟩ 0).1.toOption.map fun r =>
        r.shape.rolls.map fun d => (d.critical, d.outcome.valid)
    shown [] = some [(some .failure, true)] ∧
      trials.foldl (Trial.remark 1) (some .failure) = some .success ∧
      shown [success, crit] = some [(some .failure, true)] ∧
      shown [crit, success] = some [(some .success, true)] := by
  decide +kernel

end DiceNotation
