import DiceNotation.Proofs.Double.Rounding
import DiceNotation.Proofs.Roll.Steps

/-!
# Triggers that every face meets

A mechanic is refused if its trigger leaves no face to end with. Only the two ends of
the range of faces are tested for that. The test sees faces as doubles, among which
neighbours may fall together, but rounding keeps their order: whatever comparison
holds at both ends holds in between (`hits_of_between`). So the refusal is exact
(`Mechanic.apply_refusedIff`), for a NaN as well, which no face meets.
-/

namespace DiceNotation

/-! ## Faces -/

namespace DieType

/-- The faces that a die of the kind can show. -/
def Shows : DieType → Int64 → Prop
  | .fate, face => face = -1 ∨ face = 0 ∨ face = 1
  | .numeric faces, face => 1 ≤ face ∧ face ≤ faces

/-- A numeric die has one face at least. -/
def HasFaces : DieType → Prop
  | .fate => True
  | .numeric faces => 1 ≤ faces

theorem shows_min {kind : DieType} (h : kind.HasFaces) : kind.Shows kind.min := by
  cases kind with
  | fate => exact .inl rfl
  | numeric faces => exact ⟨Int64.le_refl 1, h⟩

theorem shows_max {kind : DieType} (h : kind.HasFaces) : kind.Shows kind.max := by
  cases kind with
  | fate => exact .inr (.inr rfl)
  | numeric faces => exact ⟨h, Int64.le_refl faces⟩

theorem min_le_of_shows {kind : DieType} {face : Int64} (h : kind.Shows face) :
    kind.min ≤ face := by
  cases kind with
  | fate => rcases h with rfl | rfl | rfl <;> decide
  | numeric faces => exact h.1

theorem le_max_of_shows {kind : DieType} {face : Int64} (h : kind.Shows face) :
    face ≤ kind.max := by
  cases kind with
  | fate => rcases h with rfl | rfl | rfl <;> decide
  | numeric faces => exact h.2

end DieType

/-! ## Comparisons along a range -/

section Between

variable {low face high : Int64}

/-- Integers keep their order as doubles, if not strictly. -/
theorem Number.rank_int_mono (h : low ≤ high) :
    (int low).toDouble.rank ≤ (int high).toDouble.rank :=
  Double.rank_ofInt_mono (Int64.le_iff_toInt_le.1 h)

/-- **A trigger that both ends meet** is met by all that is between them. -/
theorem hits_of_between {trigger : Condition Number} (hlow : hits trigger low)
    (hhigh : hits trigger high) (h : low ≤ face) (h' : face ≤ high) : hits trigger face := by
  have hrank := Number.rank_int_mono h
  have hrank' := Number.rank_int_mono h'
  have hnan : (Number.int face).toDouble.isNaN = false := Double.isNaN_ofInt _
  obtain ⟨comparison, target⟩ := trigger
  simp only [hits, Condition.meets] at hlow hhigh ⊢
  cases comparison with
  | atLeast =>
    obtain ⟨-, htarget, hle⟩ := Number.atLeast_iff.1 hlow
    exact Number.atLeast_iff.2 ⟨hnan, htarget, Int.le_trans hle hrank⟩
  | atMost =>
    obtain ⟨-, htarget, hle⟩ := Number.atMost_iff.1 hhigh
    exact Number.atMost_iff.2 ⟨hnan, htarget, Int.le_trans hrank' hle⟩
  | equal =>
    obtain ⟨-, htarget, heq⟩ := Number.same_iff.1 hlow
    obtain ⟨-, -, heq'⟩ := Number.same_iff.1 hhigh
    exact Number.same_iff.2 ⟨hnan, htarget, by omega⟩

end Between

/-- **Both ends or every face.** -/
theorem hitsAll_eq_true_iff {trigger : Condition Number} {kind : DieType} (h : kind.HasFaces) :
    hitsAll trigger kind = true ↔ ∀ face, kind.Shows face → hits trigger face = true := by
  rw [hitsAll, Bool.and_eq_true]
  constructor
  · rintro ⟨hmin, hmax⟩ face hface
    exact hits_of_between hmin hmax (DieType.min_le_of_shows hface) (DieType.le_max_of_shows hface)
  · exact fun hall => ⟨hall _ (DieType.shows_min h), hall _ (DieType.shows_max h)⟩

/-! ## Refusals -/

namespace Rolling

variable {α : Type}

/-- The computation gives a result, or it runs out of values. -/
def NeverRefused (m : Rolling α) : Prop :=
  ∀ σ n error d, m.answer σ n ≠ (.error (.refused error), d)

theorem neverRefused_closed : Closed (fun _ m => NeverRefused m) where
  pure a σ n error d h := by cases h
  bind hm hf σ n error d h := by
    rcases answer_bind_eq_error.1 h with h | ⟨a, e, -, h⟩
    · exact hm σ n error d h
    · exact hf a σ e error d h

theorem neverRefused_rollFace (kind : DieType) : NeverRefused kind.rollFace := by
  intro σ n error d h
  rw [answer_rollFace] at h
  split at h <;> cases h

/-- An unbounded re-roll is not refused. -/
theorem neverRefused_rerollToMiss (kind : DieType) (trigger : Condition Number) (die : RolledDie) :
    NeverRefused (rerollToMiss kind trigger die) := by
  intro σ n error d h
  rw [answer_rerollToMiss] at h
  cases (eq_unfinished_of_answer_rerollChain _ _ _ _ h).1

/-- After `n` draws, the computation is refused with the error if and only if `p`, when
there are `e` draws. There is no other refusal. -/
structure RefusedIff (m : Rolling α) (σ : Setting) (n e : Nat) (error : RollError) (p : Prop) :
    Prop where
  iff : m.answer σ n = (.error (.refused error), e) ↔ p
  only : ∀ error' d, m.answer σ n = (.error (.refused error'), d) → error' = error ∧ d = e

end Rolling

/-- The trigger that a mechanic is applied with: the written one, with its target
rolled, or the one of the die itself. -/
def Mechanic.trigger (mechanic : Mechanic) (kind : DieType) :
    Option (Condition (Rolling Result)) → Rolling (Condition Number)
  | some written => written.resolve
  | none => return ⟨.equal, .int (mechanic.defaultFace kind)⟩

/-- Rolling again resolves the trigger and then applies it. -/
theorem Modifier.applyToDice_again (mechanic : Mechanic) (kind : DieType)
    (written : Option (Condition (Rolling Result))) (rolls : List RolledDie) :
    (again mechanic written).applyToDice kind rolls =
      mechanic.trigger kind written >>= fun trigger => mechanic.apply kind trigger rolls := by
  cases written <;> rfl

/-- A trigger that hits all faces is refused. -/
theorem Mechanic.answer_apply_of_hitsAll (mechanic : Mechanic) {kind : DieType}
    {trigger : Condition Number} (h : hitsAll trigger kind = true) (rolls : List RolledDie)
    (σ : Setting) (n : Nat) :
    (mechanic.apply kind trigger rolls).answer σ n =
      (.error (.refused (.invalidTrigger mechanic)), n) := by
  unfold Mechanic.apply
  rw [if_pos h, Rolling.answer_refuse]

/-- It is refused just if it hits all faces that the die can show. -/
theorem Mechanic.apply_refusedIff (mechanic : Mechanic) {kind : DieType} (h : kind.HasFaces)
    (trigger : Condition Number) (rolls : List RolledDie) (σ : Setting) (n : Nat) :
    (mechanic.apply kind trigger rolls).RefusedIff σ n n (.invalidTrigger mechanic)
      (∀ face, kind.Shows face → hits trigger face = true) := by
  rw [← hitsAll_eq_true_iff h]
  cases hends : hitsAll trigger kind with
  | true =>
    have hanswer := mechanic.answer_apply_of_hitsAll hends rolls σ n
    refine ⟨by simp [hanswer], fun error d herror => ?_⟩
    rw [hanswer] at herror
    cases herror
    exact ⟨rfl, rfl⟩
  | false =>
    have hnever : (mechanic.apply kind trigger rolls).NeverRefused :=
      Rolling.neverRefused_closed.mechanic hends (Rolling.neverRefused_rollFace kind)
        (Rolling.neverRefused_rerollToMiss kind trigger) mechanic rolls
    exact ⟨by simpa using hnever σ n _ n, fun error d herror => absurd herror (hnever σ n error d)⟩

/-- **The guard against chains without an end is exact.** A mechanic is refused if and
only if every face that the die can show meets its trigger, whatever the comparison
and the target, written or not; a written one is rolled before. -/
theorem Mechanic.refused_iff_forall_face (mechanic : Mechanic) {kind : DieType}
    (h : kind.HasFaces) :
    (∀ (trigger : Condition Number) (rolls : List RolledDie) (σ : Setting) (n : Nat),
      (mechanic.apply kind trigger rolls).RefusedIff σ n n (.invalidTrigger mechanic)
        (∀ face, kind.Shows face → hits trigger face = true)) ∧
    ∀ (written : Option (Condition (Rolling Result))) (rolls : List RolledDie) (σ : Setting)
      (n : Nat) (trigger : Condition Number) (e : Nat),
      (mechanic.trigger kind written).answer σ n = (.ok trigger, e) →
        ((Modifier.again mechanic written).applyToDice kind rolls).RefusedIff σ n e
          (.invalidTrigger mechanic) (∀ face, kind.Shows face → hits trigger face = true) := by
  refine ⟨mechanic.apply_refusedIff h, fun written rolls σ n trigger e htrigger => ?_⟩
  have hanswer : ((Modifier.again mechanic written).applyToDice kind rolls).answer σ n =
      (mechanic.apply kind trigger rolls).answer σ e := by
    rw [Modifier.applyToDice_again, Rolling.answer_bind, htrigger]
  obtain ⟨hiff, honly⟩ := mechanic.apply_refusedIff h trigger rolls σ e
  exact ⟨hanswer ▸ hiff, hanswer ▸ honly⟩

/-- A die with `2 ^ 53 + 1` faces whose re-roll is for at most `2 ^ 53`: the highest face
is that number as a double, so no face is left, and the re-roll is refused. -/
theorem Mechanic.refused_iff_forall_face_rounded :
    let kind : DieType := .numeric 9007199254740993
    let trigger : Condition Number := ⟨.atMost, .int 9007199254740992⟩
    let written : Condition (Rolling Result) := ⟨.atMost, pure (.number (.int 9007199254740992))⟩
    let σ : Setting := ⟨.ofList [], 1000⟩
    kind.HasFaces ∧ (Mechanic.reroll.trigger kind (some written)).answer σ 0 = (.ok trigger, 0) ∧
      (∀ face, kind.Shows face → hits trigger face = true) ∧
      ((Modifier.again .reroll (some written)).applyToDice kind []).answer σ 0 =
        (.error (.refused (.invalidTrigger .reroll)), 0) := by
  intro kind trigger written σ
  have hfaces : kind.HasFaces := by
    change (1 : Int64) ≤ 9007199254740993
    decide
  have hends : hitsAll trigger kind = true := by decide +kernel
  obtain ⟨happly, hmodifier⟩ := Mechanic.refused_iff_forall_face .reroll hfaces
  have hall := (happly trigger [] σ 0).iff.1 (Mechanic.reroll.answer_apply_of_hitsAll hends [] σ 0)
  exact ⟨hfaces, rfl, hall, (hmodifier (some written) [] σ 0 trigger 0 rfl).iff.2 hall⟩

end DiceNotation
