import DiceNotation.Proofs.Roll.Labels
import DiceNotation.Proofs.Roll.Layout

/-!
# Marks decide nothing

A critical mark is set, cleared and shown, and no step of a roll reads it but the
next mark. So whatever is done to dice is done alike to the same dice without their
marks (`Rolling.Markless`), and a target that only marks does nothing to them. A
specification may therefore lose any of its marks with literal conditions: it draws
as before, and it gives the same result but for the marks on its own dice
(`Node.answer_roll_drop_marks`).

A condition that has to be rolled is another matter, since its draws go with it.
-/

namespace DiceNotation

open Counted

/-! ## Dice without marks -/

/-- The face with its mark replaced; a fate die has none. -/
def Face.mapMark (f : Option Critical → Option Critical) : Face → Face
  | .numeric faces mark => .numeric faces (f mark)
  | .fate => .fate

@[simp] theorem Face.mapMark_id (face : Face) : face.mapMark id = face := by
  cases face <;> rfl

@[simp] theorem Face.mapMark_mapMark (f g : Option Critical → Option Critical) (face : Face) :
    (face.mapMark f).mapMark g = face.mapMark (g ∘ f) := by
  cases face <;> rfl

/-- The die without its mark. The kind of die stays. -/
def RolledDie.eraseMark (d : RolledDie) : RolledDie :=
  { d with face := d.face.mapMark fun _ => none }

open RolledDie (eraseMark)

/-- Without its mark a die is the same, whatever the mark was. -/
theorem RolledDie.eraseMark_setCritical (mark : Option Critical) (d : RolledDie) :
    (d.setCritical mark).eraseMark = d.eraseMark := by
  obtain ⟨outcome, face, roll⟩ := d
  cases face <;> rfl

@[simp] theorem RolledDie.eraseMark_eraseMark (d : RolledDie) :
    d.eraseMark.eraseMark = d.eraseMark := by
  obtain ⟨outcome, face, roll⟩ := d
  cases face <;> rfl

theorem map_eraseMark_map_eraseMark (rolls : List RolledDie) :
    (rolls.map eraseMark).map eraseMark = rolls.map eraseMark := by
  simp

theorem blind_eraseMark : Blind eraseMark :=
  ⟨fun _ => rfl, fun _ => rfl, fun _ => rfl, fun _ => rfl, fun _ _ _ => rfl⟩

/-- Marking changes nothing but marks. -/
theorem map_eraseMark_markCritical (condition : Condition Number) (kind : Critical)
    (rolls : List RolledDie) :
    (markCritical condition kind rolls).map eraseMark = rolls.map eraseMark := by
  rw [markCritical, List.map_map]
  refine List.map_congr_left fun d _ => ?_
  rw [Function.comp_apply]
  split
  · exact d.eraseMark_setCritical _
  · rfl

/-- Matches are told by faces, so they are the same without marks. -/
theorem map_eraseMark_markMatched (faces : List Int64) (rolls : List RolledDie) :
    (markMatched faces rolls).map eraseMark = markMatched faces (rolls.map eraseMark) := by
  rw [markMatched, markMatched, List.map_map, List.map_map]
  refine List.map_congr_left fun d _ => ?_
  rw [Function.comp_apply, Function.comp_apply, apply_ite eraseMark]
  rfl

/-- Sorting and settling see no marks. -/
theorem map_eraseMark_arrange {ε : Type} (spec : DieSpec ε) (rolls : List RolledDie) :
    (spec.arrange rolls).map eraseMark = spec.arrange (rolls.map eraseMark) :=
  spec.map_arrange (f := eraseMark) (fun _ _ => rfl) (fun _ => rfl) rolls

/-- Marks do not count. -/
theorem sumTotals_map_eraseMark (rolls : List RolledDie) :
    sumTotals (rolls.map eraseMark) = sumTotals rolls :=
  sumTotals_map (f := eraseMark) (fun _ => rfl) rolls

theorem Matching.faces_map_eraseMark (m : Matching (Rolling Result)) (rolls : List RolledDie) :
    m.faces (rolls.map eraseMark) = m.faces rolls := by
  have hrolls : (rolls.map eraseMark).map RolledDie.roll = rolls.map RolledDie.roll := by
    rw [List.map_map]
    rfl
  simp only [faces, sharedFaces, hrolls]

/-! ## Steps that see no marks -/

namespace Rolling

/-- The computation, with the marks of its dice erased. -/
def eraseMarks (m : Rolling (List RolledDie)) : Rolling (List RolledDie) :=
  List.map eraseMark <$> m

@[simp] theorem eraseMarks_pure (rolls : List RolledDie) :
    eraseMarks (pure rolls) = pure (rolls.map eraseMark) :=
  rfl

/-- Erasing marks at the end is erasing them after the last step. -/
theorem eraseMarks_bind {α : Type} (m : Rolling α) (f : α → Rolling (List RolledDie)) :
    eraseMarks (m >>= f) = m >>= fun a => eraseMarks (f a) :=
  map_bind ..

/-- What is done to dice is done alike to the same dice without their marks. -/
def Markless (f : List RolledDie → Rolling (List RolledDie)) : Prop :=
  ∀ rolls, eraseMarks (f (rolls.map eraseMark)) = eraseMarks (f rolls)

/-- What sees no marks may be given dice without them. -/
theorem Markless.eraseMarks_bind {f : List RolledDie → Rolling (List RolledDie)} (hf : Markless f)
    (m : Rolling (List RolledDie)) :
    eraseMarks (m >>= f) = eraseMarks m >>= fun rolls => eraseMarks (f rolls) := by
  rw [Rolling.eraseMarks_bind, eraseMarks, bind_map_left]
  exact bind_congr fun rolls => (hf rolls).symm

/-- One step after the other sees no marks if neither does. -/
theorem Markless.bind {f g : List RolledDie → Rolling (List RolledDie)} (hf : Markless f)
    (hg : Markless g) : Markless fun rolls => f rolls >>= g := by
  intro rolls
  rw [hg.eraseMarks_bind, hf, ← hg.eraseMarks_bind]

/-- What is drawn before has no marks to see. -/
theorem markless_bind {α : Type} (m : Rolling α) {f : α → List RolledDie → Rolling (List RolledDie)}
    (hf : ∀ a, Markless (f a)) : Markless fun rolls => m >>= fun a => f a rolls := by
  intro rolls
  rw [Rolling.eraseMarks_bind, Rolling.eraseMarks_bind]
  exact bind_congr fun a => hf a rolls

theorem markless_pure {f : List RolledDie → List RolledDie}
    (hf : ∀ rolls, (f (rolls.map eraseMark)).map eraseMark = (f rolls).map eraseMark) :
    Markless fun rolls => pure (f rolls) := by
  intro rolls
  rw [eraseMarks_pure, eraseMarks_pure, hf]

theorem markless_refuse (error : RollError) : Markless fun _ => refuse error :=
  fun _ => rfl

/-- A list of steps sees no marks if none of them does. -/
theorem Markless.foldlM {α : Type} {f : List RolledDie → α → Rolling (List RolledDie)}
    {l : List α} (hf : ∀ a ∈ l, Markless (f · a)) : Markless fun rolls => l.foldlM f rolls := by
  induction l with
  | nil => exact markless_pure (f := id) fun rolls => map_eraseMark_map_eraseMark rolls
  | cons a l ih =>
    simp only [List.foldlM_cons]
    exact (hf a List.mem_cons_self).bind (ih fun b hb => hf b (List.mem_cons_of_mem _ hb))

/-! ### One die after the other -/

/-- What is done to a die is done alike to it without its mark. -/
def MarklessDie (f : RolledDie → Rolling (List RolledDie)) : Prop :=
  ∀ d, eraseMarks (f d.eraseMark) = eraseMarks (f d)

/-- Steps that see no mark of each die see none of all dice. -/
theorem MarklessDie.flatMapM {f : RolledDie → Rolling (List RolledDie)} (hf : MarklessDie f) :
    Markless fun rolls => rolls.flatMapM f := by
  intro rolls
  induction rolls with
  | nil => rfl
  | cons d rolls ih =>
    have hcons (d : RolledDie) (rolls : List RolledDie) :
        eraseMarks ((d :: rolls).flatMapM f) =
          eraseMarks (f d) >>= fun first => (first ++ ·) <$> eraseMarks (rolls.flatMapM f) := by
      simp [eraseMarks, List.flatMapM_cons]
    rw [List.map_cons, hcons, hcons, hf, ih]

theorem markless_mapM {f : RolledDie → Rolling RolledDie}
    (hf : ∀ d, eraseMark <$> f d.eraseMark = eraseMark <$> f d) :
    Markless fun rolls => rolls.mapM f := by
  intro rolls
  induction rolls with
  | nil => rfl
  | cons d rolls ih =>
    have hcons (d : RolledDie) (rolls : List RolledDie) : eraseMarks ((d :: rolls).mapM f) =
        eraseMark <$> f d >>= fun first => (first :: ·) <$> eraseMarks (rolls.mapM f) := by
      simp [eraseMarks, List.mapM_cons]
    rw [List.map_cons, hcons, hcons, hf, ih]

/-! ### Rolling again -/

section Mechanics

variable (kind : DieType) (trigger : Condition Number)

theorem markless_numbered : Markless fun rolls => pure (numbered rolls) :=
  markless_pure fun rolls => by
    rw [map_numbered (fun _ _ => rfl), map_numbered (fun _ _ => rfl), map_eraseMark_map_eraseMark]

/-- An exploding chain sees no marks, since only rolls are compared. -/
theorem marklessDie_explodeChain (penalty : Int64) (n : Nat) :
    MarklessDie (explodeChain kind trigger penalty n) := by
  intro d
  have hroll : d.eraseMark.roll = d.roll := rfl
  cases n with
  | zero => simp [explodeChain]
  | succ n =>
    rw [explodeChain, explodeChain, hroll]
    split
    · simp only [eraseMarks_bind, eraseMarks_pure, List.map_cons]
      refine bind_congr fun next => bind_congr fun chain => ?_
      exact congrArg (fun first => pure (first :: chain.map eraseMark))
        (RolledDie.eraseMark_eraseMark { d with exploded := true })
    · simp

/-- Neither does a compounded die, of which rolls are added up. -/
theorem map_eraseMark_compoundDie (d : RolledDie) :
    eraseMark <$> compoundDie kind trigger d.eraseMark =
      eraseMark <$> compoundDie kind trigger d := by
  have hroll : d.eraseMark.roll = d.roll := rfl
  rw [compoundDie, compoundDie, hroll]
  split
  · rw [map_bind, map_bind]
    refine bind_congr fun total => ?_
    rw [map_pure, map_pure]
    exact congrArg pure (RolledDie.setTotal total { d with exploded := true }).eraseMark_eraseMark
  · rw [map_pure, map_pure, d.eraseMark_eraseMark]

/-- The replacements so far are carried along, so they may differ in marks too. -/
theorem eraseMarks_rerollChain (fuel : Nat) {before before' : List RolledDie} {d d' : RolledDie}
    (hbefore : before.map eraseMark = before'.map eraseMark) (hd : d.eraseMark = d'.eraseMark) :
    eraseMarks (rerollChain kind trigger fuel before d) =
      eraseMarks (rerollChain kind trigger fuel before' d') := by
  induction fuel generalizing before before' d d' with
  | zero => rfl
  | succ fuel ih =>
    have hroll : d.roll = d'.roll := (congrArg RolledDie.roll hd :)
    rw [rerollChain, rerollChain, hroll]
    split
    · rw [eraseMarks_bind, eraseMarks_bind]
      refine bind_congr fun next => ih ?_ rfl
      rw [List.map_cons, List.map_cons, hbefore]
      exact congrArg (fun d => d.replaced :: before'.map eraseMark) hd
    · simp [hbefore, hd]

theorem marklessDie_rerollToMiss : MarklessDie (rerollToMiss kind trigger) := by
  intro d
  rw [rerollToMiss, rerollToMiss, eraseMarks_bind, eraseMarks_bind]
  exact bind_congr fun left => eraseMarks_rerollChain kind trigger _ rfl d.eraseMark_eraseMark

theorem marklessDie_rerollOneTime : MarklessDie (rerollOneTime kind trigger) := by
  intro d
  have hroll : d.eraseMark.roll = d.roll := rfl
  rw [rerollOneTime, rerollOneTime, hroll]
  split
  · rw [eraseMarks_bind, eraseMarks_bind]
    refine bind_congr fun next => ?_
    rw [eraseMarks_pure, eraseMarks_pure]
    exact congrArg (fun first => pure [first, next.eraseMark]) d.replaced.eraseMark_eraseMark
  · simp

/-- **Rolling again** looks at faces. -/
theorem markless_mechanic (mechanic : Mechanic) : Markless (mechanic.apply kind trigger) := by
  have hexplode (penalty : Int64) : Markless (explodeAll kind trigger penalty) :=
    (marklessDie_explodeChain kind trigger penalty maxChain).flatMapM.bind markless_numbered
  intro rolls
  unfold Mechanic.apply
  split
  · rfl
  · cases mechanic with
    | explode => exact hexplode 0 rolls
    | penetrate => exact hexplode 1 rolls
    | compound => exact markless_mapM (map_eraseMark_compoundDie kind trigger) rolls
    | reroll =>
      exact (marklessDie_rerollToMiss kind trigger).flatMapM.bind markless_numbered rolls
    | rerollOnce =>
      exact (marklessDie_rerollOneTime kind trigger).flatMapM.bind markless_numbered rolls

end Mechanics

/-! ### Modifiers -/

theorem markless_markCritical (condition : Condition Number) (mark : Critical) :
    Markless fun rolls => pure (markCritical condition mark rolls) :=
  markless_pure fun rolls => by
    rw [map_eraseMark_markCritical, map_eraseMark_markCritical, map_eraseMark_map_eraseMark]

/-- **Every modifier of dice** sees no marks, one that sets marks included: it
changes the old one, and the new one is erased as well. -/
theorem markless_applyToDice (kind : DieType) (m : Modifier (Rolling Result)) :
    Markless fun rolls => m.applyToDice kind rolls := by
  have hkey (d : RolledDie) : faceValue d.eraseMark = faceValue d := rfl
  match m with
  | .select action extreme count =>
    refine markless_bind count fun r => markless_pure fun rolls => ?_
    rw [blind_eraseMark.selectItems_map hkey, map_eraseMark_map_eraseMark]
  | .test .success condition | .test .failure condition =>
    refine markless_bind condition.resolve fun c => markless_pure fun rolls => ?_
    rw [blind_eraseMark.convert_map hkey, map_eraseMark_map_eraseMark]
  | .test .crit condition | .test .critfail condition =>
    exact markless_bind condition.resolve fun c => markless_markCritical c _
  | .again mechanic (some trigger) =>
    exact markless_bind trigger.resolve fun t => markless_mechanic kind t mechanic
  | .again mechanic none => exact markless_mechanic kind _ mechanic
  | .unsupported => exact markless_refuse _

end Rolling

open Rolling (eraseMarks)

/-! ## Results -/

/-- The result without the marks on its own dice. Those in its count and its sides
stay. -/
def Result.eraseMarks : Result → Result
  | mk outcome (.dice count sides rolls matched) =>
    mk outcome (.dice count sides (rolls.map eraseMark) matched)
  | r => r

theorem Result.eraseMarks_dice (count : Result) (sides : Sides Result) (rolls : List RolledDie) :
    (dice count sides rolls).eraseMarks = dice count sides (rolls.map eraseMark) := by
  rw [dice, dice, sumTotals_map_eraseMark, eraseMarks]

/-- A label is put on alike without marks. -/
theorem Result.eraseMarks_relabel (label : Option String) (r : Result) :
    (r.relabel label).eraseMarks = r.eraseMarks.relabel label := by
  obtain ⟨outcome, shape⟩ := r
  cases label <;> cases shape <;> rfl

/-- What comes after the modifiers sees no marks. -/
theorem DieSpec.eraseMarks_conclude (spec : DieSpec (Rolling Result)) (count : Result)
    (sides : Sides Result) (rolls : List RolledDie) :
    Result.eraseMarks <$> spec.conclude count sides rolls =
      spec.conclude count sides (rolls.map eraseMark) := by
  cases hmatching : spec.matching with
  | none => simp [conclude, hmatching, Result.eraseMarks_dice, map_eraseMark_arrange]
  | some m =>
    simp only [conclude, hmatching, m.faces_map_eraseMark, map_bind]
    refine bind_congr fun faces => ?_
    rw [← map_eraseMark_markMatched, ← map_eraseMark_arrange, map_pure, apply_ite Result.eraseMarks,
      Result.eraseMarks_dice]
    rfl

/-! ## Targets without some of their marks -/

/-- The test only marks. -/
def Test.isMark : Test → Bool
  | .crit | .critfail => true
  | .success | .failure => false

/-- The second list of targets is the first without some of the marks in it that
compare with a number as it is written. -/
inductive DropsMarks : List (Modifier Node) → List (Modifier Node) → Prop
  | nil : DropsMarks [] []
  | keep {targets targets' : List (Modifier Node)} (target : Modifier Node) :
    DropsMarks targets targets' → DropsMarks (target :: targets) (target :: targets')
  | drop {targets targets' : List (Modifier Node)} {meaning : Test} (compare : Comparison)
      (number : Number) (label : Option String) :
    meaning.isMark → DropsMarks targets targets' →
      DropsMarks (.test meaning ⟨compare, .term (.number number) label⟩ :: targets) targets'

/-- A literal draws nothing, and a mark does nothing else. -/
theorem eraseMarks_applyToDice_mark {meaning : Test} (h : meaning.isMark) (compare : Comparison)
    (number : Number) (label : Option String) (kind : DieType) (rolls : List RolledDie) :
    eraseMarks (((Modifier.test meaning ⟨compare, Node.term (.number number) label⟩).map
      Node.roll).applyToDice kind rolls) = pure (rolls.map eraseMark) := by
  have htarget : (Node.term (.number number) label).roll =
      pure ((Result.number number).relabel label) := Node.roll_term ..
  cases meaning with
  | success | failure => cases h
  | crit | critfail =>
    simp [Modifier.map, Condition.map, Modifier.applyToDice, Condition.resolve, htarget,
      map_eraseMark_markCritical]

namespace DropsMarks

variable {targets targets' : List (Modifier Node)} (h : DropsMarks targets targets')

include h

/-- Whether there is a target is the same without some of the marks. -/
theorem any_isTarget : targets'.any Modifier.isTarget = targets.any Modifier.isTarget := by
  induction h with
  | nil => rfl
  | keep target _ ih => rw [List.any_cons, List.any_cons, ih]
  | @drop _ _ meaning compare number label hmark _ ih =>
    rw [List.any_cons, ih]
    cases meaning with
    | success | failure => cases hmark
    | crit | critfail => rfl

/-- **A mark that is left out** leaves the dice of all other targets as they are but
for marks. -/
theorem eraseMarks_foldlM (kind : DieType) (rolls : List RolledDie) :
    eraseMarks ((targets'.map (Modifier.map Node.roll)).foldlM (Modifier.applyToDice kind) rolls) =
      eraseMarks ((targets.map (Modifier.map Node.roll)).foldlM (Modifier.applyToDice kind)
        rolls) := by
  induction h generalizing rolls with
  | nil => rfl
  | keep target _ ih =>
    rw [List.map_cons, List.map_cons, List.foldlM_cons, List.foldlM_cons,
      Rolling.eraseMarks_bind, Rolling.eraseMarks_bind]
    exact bind_congr ih
  | @drop rest _ meaning compare number label hmark _ ih =>
    have hrest := Rolling.Markless.foldlM (l := rest.map (Modifier.map Node.roll))
      fun m _ => Rolling.markless_applyToDice kind m
    rw [List.map_cons, List.foldlM_cons, hrest.eraseMarks_bind,
      eraseMarks_applyToDice_mark hmark, pure_bind, hrest rolls, ih]

end DropsMarks

/-! ## Dice of one specification -/

namespace DieSpec

variable {spec : DieSpec Node} {targets : List (Modifier Node)}

/-- Dice that lose some targets that only mark are rolled alike, up to marks. -/
theorem eraseMarks_rollDice_drop (h : DropsMarks spec.targets targets) (kind : DieType) (n : Nat) :
    eraseMarks ((DieSpec.map Node.roll { spec with targets := targets }).rollDice kind n) =
      eraseMarks ((spec.map Node.roll).rollDice kind n) := by
  have hsettle (targets : List (Modifier Node)) :
      Rolling.Markless fun rolls => pure (settle (targets.map (Modifier.map Node.roll)) rolls) :=
    Rolling.markless_pure fun rolls => by
      rw [blind_eraseMark.settle_map, map_eraseMark_map_eraseMark]
  have hsame (rolls : List RolledDie) : settle targets rolls = settle spec.targets rolls := by
    rw [settle, settle, h.any_isTarget]
  simp only [rollDice, map, Rolling.eraseMarks_bind]
  refine bind_congr fun rolls => bind_congr fun rolls => ?_
  rw [← Rolling.eraseMarks_bind, ← Rolling.eraseMarks_bind, (hsettle targets).eraseMarks_bind,
    (hsettle spec.targets).eraseMarks_bind, h.eraseMarks_foldlM]
  simp only [settle_map_modifiers, hsame]

/-- So is the whole specification. -/
theorem eraseMarks_roll_drop (h : DropsMarks spec.targets targets) :
    Result.eraseMarks <$> (DieSpec.map Node.roll { spec with targets := targets }).roll =
      Result.eraseMarks <$> (spec.map Node.roll).roll := by
  have hconclude (spec : DieSpec (Rolling Result)) (dice : Rolling (List RolledDie))
      (count : Result) (sides : Sides Result) :
      Result.eraseMarks <$> (dice >>= spec.conclude count sides) =
        eraseMarks dice >>= spec.conclude count sides := by
    rw [map_bind, eraseMarks, bind_map_left]
    exact bind_congr fun rolls => spec.eraseMarks_conclude count sides rolls
  simp only [roll, map_bind]
  refine bind_congr fun count => bind_congr fun n => bind_congr fun p => ?_
  rw [← map_bind, ← map_bind, hconclude, hconclude, eraseMarks_rollDice_drop h]
  rfl

end DieSpec

/-! ## Expressions -/

/-- **Critical targets are cosmetic.** Taking marks with literal conditions out of the
targets of a specification, whichever they are and whatever stands around them, leaves
as many draws, and the same halt or the same result but for the marks on its own dice:
their values, what counts and what is a success, what is matched, their orders and the
total do not change. -/
theorem Node.answer_roll_drop_marks {spec : DieSpec Node} {targets : List (Modifier Node)}
    (h : DropsMarks spec.targets targets) (label : Option String) (σ : Setting) (n : Nat) :
    ((term (.die { spec with targets := targets }) label).roll.answer σ n).2 =
        ((term (.die spec) label).roll.answer σ n).2 ∧
      ((term (.die { spec with targets := targets }) label).roll.answer σ n).1.map
          Result.eraseMarks =
        ((term (.die spec) label).roll.answer σ n).1.map Result.eraseMarks := by
  have hroll : Result.eraseMarks <$> (term (.die { spec with targets := targets }) label).roll =
      Result.eraseMarks <$> (term (.die spec) label).roll := by
    have hlabelled (form : Form (Rolling Result)) :
        Result.eraseMarks <$> form.rollLabelled label =
          Result.relabel label <$> Result.eraseMarks <$> form.roll := by
      simp [Form.rollLabelled, Result.eraseMarks_relabel]
    rw [roll_term, roll_term, hlabelled, hlabelled]
    exact congrArg _ (DieSpec.eraseMarks_roll_drop h)
  have hanswer := congrArg (fun m => m.answer σ n) hroll
  simp only [Rolling.answer_map, Prod.mk.injEq] at hanswer
  exact ⟨hanswer.2, hanswer.1⟩

/-- Successes, failures and marks in turn, and a match: without the marks, three dice
with a re-roll draw as often, and one of them has its own mark back. -/
theorem Node.answer_roll_drop_marks_between :
    let test (meaning : Test) (compare : Comparison) (face : Int64) : Modifier Node :=
      .test meaning ⟨compare, .int face⟩
    let spec : DieSpec Node := {
      sides := .numeric (.int 6), count := .int 3, mods := [.again .rerollOnce none],
      targets := [test .crit .equal 4, test .success .atLeast 5, test .critfail .atMost 6,
        test .failure .equal 1] }
    let targets := [test .success .atLeast 5, test .failure .equal 1]
    let tenths (k : Nat) : Double := .ofRatio false k 10
    let σ : Setting := ⟨.ofList [tenths 0, tenths 9, tenths 6, tenths 5], 1000⟩
    DropsMarks spec.targets targets ∧
      ∃ r r', (term (.die spec) none).roll.answer σ 0 = (.ok r, 4) ∧
        (term (.die { spec with targets := targets }) none).roll.answer σ 0 = (.ok r', 4) ∧
        r'.eraseMarks = r.eraseMarks := by
  intro test spec targets tenths σ
  have hdrops : DropsMarks spec.targets targets :=
    .drop _ _ _ rfl (.keep _ (.drop _ _ _ rfl (.keep _ .nil)))
  obtain ⟨r, hr⟩ : ∃ r, (term (.die spec) none).roll.answer σ 0 = (.ok r, 4) :=
    Rolling.exists_answer_eq_ok (by decide +kernel)
  obtain ⟨r', hr'⟩ : ∃ r', (term (.die { spec with targets := targets }) none).roll.answer σ 0 =
      (.ok r', 4) :=
    Rolling.exists_answer_eq_ok (by decide +kernel)
  have hsame := (Node.answer_roll_drop_marks hdrops none σ 0).2
  rw [hr, hr'] at hsame
  exact ⟨hdrops, r, r', hr, hr', by simpa [Except.map] using hsame⟩

end DiceNotation
