import DiceNotation.Proofs.Grammar.Sound
import DiceNotation.Proofs.Roll.Steps
import DiceNotation.Session

/-!
# Texts are supported

An evaluation is refused as unsupported in three places: an unknown expression,
an unknown modifier, a modifier that a group cannot have. A grammatical
expression leads to none of them (`Node.Grammatical.neverUnsupported`), and
expressions that are read from texts are grammatical. An expression that comes
from elsewhere may lead to all three.
-/

namespace DiceNotation

namespace Rolling

/-- No error of the computation is about something unsupported. -/
def NeverUnsupported {α : Type} (m : Rolling α) : Prop :=
  ∀ σ n e d, m.answer σ n = (.error (.refused e), d) → e.isUnsupported = false

/-- No step is unsupported. -/
theorem neverUnsupported_ofSteps : OfSteps (fun _ m => NeverUnsupported m) where
  pure a σ n e d h := by cases h
  bind hm hf σ n e d h := by
    rcases answer_bind_eq_error.1 h with h | ⟨a, k, -, h⟩
    · exact hm σ n e d h
    · exact hf a σ k e d h
  refuse e he σ n e' d h := by
    cases h
    exact he
  diceCount requested σ n e d h := by
    rw [answer_diceCount] at h
    split at h <;> cases h
    rfl
  rollFace kind σ n e d h := by
    rw [answer_rollFace] at h
    split at h <;> cases h
  rollMany kind k σ n e d h := by
    rw [answer_rollMany] at h
    split at h <;> cases h
  rerollToMiss kind trigger die σ n e d h := by
    rw [answer_rerollToMiss] at h
    cases (eq_unfinished_of_answer_rerollChain _ _ _ _ h).1

end Rolling

/-- **What is grammatical is supported**, in every layer. -/
theorem Node.Grammatical.neverUnsupported {n : Node} (h : n.Grammatical) :
    n.roll.NeverUnsupported := by
  induction h with
  | term hform _ ih =>
    rw [Node.roll_term]
    refine Rolling.neverUnsupported_ofSteps.labelled _ ?_
    refine Rolling.neverUnsupported_ofSteps.form ?_ (.inl ?_)
    · simpa using ih
    · exact hform.supported.map _

theorem Session.rollNode_fst (node : Node) (s : Session) :
    (s.rollNode node).1 =
      (node.roll.answer ⟨s.supply, s.ceiling⟩ s.drawn).1.mapError Failure.ofHalt := rfl

/-- **A text never leads to anything unsupported.** What is read from it is
grammatical, in every layer, so no session that rolls it is refused for an
unknown expression, an unknown modifier or a modifier out of place. -/
theorem parse_supported (text : String) :
    (∀ node, parse text = .ok node → node.Grammatical) ∧
      ∀ (s : Session) (e : RollError), (s.roll text).1 = .error (.roll e) →
        e.isUnsupported = false := by
  refine ⟨fun node => grammatical_of_parse, fun s e h => ?_⟩
  -- a text that is not read does not get as far as a roll
  cases hp : parse text with
  | error error =>
    rw [Session.roll, hp] at h
    cases h
  | ok node =>
    rw [Session.roll, hp, Session.rollNode_fst] at h
    rcases ha : node.roll.answer ⟨s.supply, s.ceiling⟩ s.drawn with ⟨halt | r, d⟩
    · cases halt with
      | refused e' =>
        obtain rfl : e' = e := by simpa [ha, Except.mapError, Failure.ofHalt] using h
        exact (grammatical_of_parse hp).neverUnsupported _ _ _ _ ha
      | unfinished => simp [ha, Except.mapError, Failure.ofHalt] at h
    · simp [ha, Except.mapError] at h

end DiceNotation
