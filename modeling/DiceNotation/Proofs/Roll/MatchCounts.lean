import DiceNotation.Proofs.Roll.Pooling
import DiceNotation.Proofs.Roll.ValueLaws

/-!
# Counts of matches

Dice that count matches say so, and their value is the number of faces that are
marked on them (`Node.answer_roll_matched`). Selections and counts of a group that
reach the dice leave the marks, so the number stays right when values are made again.

Only the sole member of a group with modifiers loses it. It gets the sum of its pool
for a value, like every other sole member, and goes on saying that it counts.
-/

namespace DiceNotation

open Counted

/-- The shape is that of dice that count matches. -/
def Shape.isMatched {ε : Type} : Shape ε → Bool
  | .dice _ _ _ matched => matched
  | _ => false

namespace Result

variable {r : Result}

/-- Dice with a match are a pool. -/
theorem isPooled_of_isMatched (h : r.shape.isMatched) : r.isPooled := by
  obtain ⟨outcome, shape⟩ := r
  cases shape with
  | dice => rfl
  | number | sum | chain | group | function => cases h

/-- The pool of such dice is what they have rolled. -/
theorem pool_of_isMatched (h : r.shape.isMatched) : r.pool = r.shape.rolls := by
  obtain ⟨outcome, shape⟩ := r
  cases shape with
  | dice => rw [pool, shape, Shape.rolls]
  | number | sum | chain | group | function => cases h

end Result

/-- The value of dice that count matches is the number of their marked faces; or, if
that may be, they are a sole member and it is their sum. -/
def Shape.CountsMatches (pooling : Prop) (place : Place) (shape : Shape Result) (value : Number) :
    Prop :=
  shape.isMatched → value = .int (Int64.ofNat (matchedFaces shape.rolls).card) ∨
    pooling ∧ place.IsSoleMember ∧ value = sumTotals shape.rolls

/-- The same of a result, unless it is a count of successes. -/
def Result.CountsMatches (pooling : Prop) (place : Place) (r : Result) : Prop :=
  r.outcome.success = false → r.shape.CountsMatches pooling place r.value

/-! ## The law -/

section Law

variable {pooling : Prop}

/-- What counts matches counts its own dice. -/
theorem valueLaw_countsMatches : ValueLaw (Shape.CountsMatches pooling) where
  number _ h := by cases h
  summed _ _ _ h := by cases h
  counted _ _ _ _ := .inl rfl
  sum _ h := by cases h
  chain _ h := by cases h
  group _ h := by cases h
  function _ _ h := by cases h
  anywhere h place hmatched := by
    refine .inl ((h hmatched).resolve_right ?_)
    rintro ⟨-, hplace, -⟩
    exact Place.not_isSoleMember rfl hplace
  changed hplace hrolls h hmatched := by
    refine .inl (((h hmatched).resolve_right ?_).trans ?_)
    · rintro ⟨-, hsole, -⟩
      exact Place.not_isSoleMember hplace hsole
    · rw [Shape.rolls, Shape.rolls, matchedFaces_changed hrolls]
  refolded _ _ _ h := by cases h

theorem admitsPools_countsMatches (h : pooling) : AdmitsPools (Shape.CountsMatches pooling) := by
  intro r place _ hplace _ hmatched
  refine .inr ⟨h, hplace, ?_⟩
  rw [Result.pool_of_isMatched hmatched]

end Law

/-! ## Expressions -/

/-- **Dice that count matches hold their number.** Wherever dice lie in the result of
a roll that say that they count, and are no count of successes, their value is the
number of the distinct faces among those that are marked. If no group with a single
member has modifiers that is so without exception. In such a group it is not: there
the member has the sum of its dice for a value. -/
theorem Node.answer_roll_matched (node : Node) {σ : Setting} {n d : Nat} {r : Result}
    (h : node.roll.answer σ n = (.ok r, d)) :
    r.Everywhere (Result.CountsMatches ¬node.Unpooled) .apart ∧
      ∀ child mods label, node = term (.group child [] mods) label → mods ≠ [] →
        ∀ member, r.shape = .group [member] → member.shape.isMatched →
          member.value = sumTotals member.shape.rolls := by
  refine ⟨?_, fun child mods label hnode hmods member hr hmatched => ?_⟩
  · refine valueLaw_countsMatches.keeps_roll node ?_ σ n r d h
    by_cases hnode : node.Unpooled
    · exact .inr hnode
    · exact .inl (admitsPools_countsMatches hnode)
  · subst hnode
    rw [Node.roll_term] at h
    obtain ⟨bare, hbare, rfl⟩ := Form.answer_rollLabelled_eq_ok h
    rw [Result.shape_relabel] at hr
    have hmods' : mods.map (Modifier.map roll) ≠ [] := by simpa using hmods
    rw [value_of_answer_rollGroup_pool hmods' hbare hr (Result.isPooled_of_isMatched hmatched),
      Result.pool_of_isMatched hmatched]

theorem Node.unpooled_int (value : Int64) : (int value).Unpooled :=
  .term rfl (by simp [Form.terms])

/-- Three dice and two dice that count matches, as the members of a group that keeps
one of the two. -/
theorem Node.answer_roll_matched_members :
    let dice (count : Int64) : Node := .term (.die {
      sides := .numeric (.int 6), count := .int count,
      matching := some ⟨.int 2, true, none, none⟩ }) none
    let group : Node := .term (.group (dice 3) [dice 2] [.select .keep none (.int 1)]) none
    let tenths (k : Nat) : Double := .ofRatio false k 10
    let σ : Setting := ⟨.ofList [tenths 3, tenths 9, tenths 3, tenths 0, tenths 0], 1000⟩
    group.Unpooled ∧ ∃ r, group.roll.answer σ 0 = (.ok r, 5) ∧
      r.Everywhere (Result.CountsMatches ¬group.Unpooled) .apart := by
  intro dice group tenths σ
  have hdice (count : Int64) : (dice count).Unpooled :=
    .term rfl (by simpa [Form.terms, Sides.parts] using ⟨unpooled_int count, unpooled_int 6⟩)
  obtain ⟨r, hr⟩ : ∃ r, group.roll.answer σ 0 = (.ok r, 5) :=
    Rolling.exists_answer_eq_ok (by decide +kernel)
  refine ⟨.term rfl ?_, r, hr, (Node.answer_roll_matched group hr).1⟩
  simpa [Form.terms] using ⟨hdice 3, hdice 2⟩

/-- **A sole member says that it counts, and does not.** Two ones are one face. When a
group drops none of them, the dice still say that they count matches, and no target
made successes of them, and their value is the two that the ones add up to. -/
theorem Node.answer_roll_matched_overwritten :
    let dice : Node := .term (.die {
      sides := .numeric (.int 6), count := .int 2,
      matching := some ⟨.int 2, true, none, none⟩ }) none
    let group : Node := .term (.group dice [] [.select .drop none (.int 0)]) none
    ∃ r member, group.roll.answer ⟨.ofList [.zero, .zero], 1000⟩ 0 = (.ok r, 2) ∧
      r.shape.parts = [member] ∧ member.shape.isMatched = true ∧
      member.outcome.success = false ∧ member.value = .int 2 ∧
      (matchedFaces member.shape.rolls).card = 1 := by
  intro dice group
  let facts (member : Result) : Bool × Bool × Number × Nat :=
    (member.shape.isMatched, member.outcome.success, member.value,
      (matchedFaces member.shape.rolls).card)
  have hroll : ∃ r, group.roll.answer ⟨.ofList [.zero, .zero], 1000⟩ 0 = (.ok r, 2) ∧
      r.shape.parts.map facts = [(true, false, .int 2, 1)] :=
    Rolling.exists_answer_eq_ok_of_map _ (by decide +kernel)
  obtain ⟨r, hr, hfacts⟩ := hroll
  obtain ⟨member, hparts, hmember⟩ := List.map_eq_singleton_iff.1 hfacts
  obtain ⟨hmatched, hsuccess, hvalue, hcard⟩ : member.shape.isMatched = true ∧
      member.outcome.success = false ∧ member.value = .int 2 ∧
      (matchedFaces member.shape.rolls).card = 1 := by simpa [facts] using hmember
  exact ⟨r, member, hr, hparts, hmatched, hsuccess, hvalue, hcard⟩

end DiceNotation
