import DiceNotation.Proofs.Grammar.Reading
import DiceNotation.Proofs.Roll.Layers
import DiceNotation.Session

/-!
# Text after an expression

Text that is left over after an expression is a label and nothing else. What is
before it is an expression of its own, the same one (`parse_before_leftover`):
a parser that declines a token declines the end of the text as well, and the
tokens before the cut are what they were.
-/

namespace DiceNotation

/-! ## The text before what is left over -/

/-- Characters are dropped with all of their bytes. -/
theorem Text.dropBytes_bytes (us vs : List Char) : dropBytes (bytes us) (us ++ vs) = vs := by
  induction us with
  | nil => simp [dropBytes]
  | cons c us ih =>
    have hc := c.utf8Size_pos
    obtain ⟨n, hn⟩ := Nat.exists_eq_succ_of_ne_zero (n := c.utf8Size + bytes us) (by omega)
    rw [bytes_cons, hn, List.cons_append, dropBytes, ← hn, Nat.add_sub_cancel_left, ih]
    exact Nat.noConfusion

/-- A text that an expression leaves something of has the expression in front. -/
theorem exists_before_leftover {s : String} {node : Node} {after : Cursor} {t : Token}
    {us : List Token} (h : ReadsTo s node after) (hrest : after.rest = t :: us) :
    ∃ before rest, s = before ++ rest ∧ before.utf8ByteSize = t.start ∧ Reads before node := by
  obtain ⟨taken, htokens, hread⟩ := Parser.read_taken h
  rw [hrest, Token.tokenize_eq] at htokens
  obtain ⟨u, v, hs, hstart, hu, -⟩ := Token.exists_cut htokens
  have hbefore : tokenize (String.ofList u) = taken := by
    rw [Token.tokenize_eq, String.toList_ofList, hu]
  refine ⟨String.ofList u, String.ofList v, ?_, ?_, ?_⟩
  · rw [← String.ofList_append, ← hs, String.ofList_toList]
  · rwa [Nat.zero_add] at hstart
  · unfold Reads ReadsTo
    rw [hbefore]
    exact hread _ _ (Nat.le_refl _)

/-- A text that is an expression is rolled as one. -/
theorem Session.roll_eq {text : String} {node : Node} (h : parse text = .ok node) (s : Session) :
    s.roll text =
      let (answer, drawn) := node.roll.answer ⟨s.supply, s.ceiling⟩ s.drawn
      (answer.mapError Failure.ofHalt, { s with drawn := drawn }) := by
  rw [roll, h]
  rfl

/-- The value of a text depends on the values of the expression alone. -/
theorem Session.rollValue_eq {text : String} {node : Node} (h : parse text = .ok node)
    (s : Session) :
    s.rollValue text =
      let (answer, drawn) := (Result.value <$> node.roll).answer ⟨s.supply, s.ceiling⟩ s.drawn
      (answer.mapError Failure.ofHalt, { s with drawn := drawn }) := by
  rw [Rolling.answer_map, rollValue, s.roll_eq h]
  generalize node.roll.answer ⟨s.supply, s.ceiling⟩ s.drawn = answered
  obtain ⟨_ | r, drawn⟩ := answered
  · rfl
  · rfl

/-- **Text after an expression is nothing but a label.** -/
theorem parse_before_leftover {s : String} {node : Node} {after : Cursor} {t : Token}
    {us : List Token} (h : ReadsTo s node after) (hrest : after.rest = t :: us) :
    ∃ before rest form label, s = before ++ rest ∧ before.utf8ByteSize = t.start ∧
      Reads before (.term form label) ∧ parse before = .ok (.term form label) ∧
      (let trimmed := String.ofList (Text.trim rest.toList)
       parse s =
        .ok (.term form (some (label.elim trimmed fun label => label ++ " " ++ trimmed)))) ∧
      ∀ session : Session, session.rollValue s = session.rollValue before := by
  obtain ⟨before, rest, rfl, hstart, hread⟩ := exists_before_leftover h hrest
  have hgrammatical := h.grammatical
  obtain ⟨form, label, rfl⟩ : ∃ form label, node = .term form label := by
    cases hgrammatical with
    | term => exact ⟨_, _, rfl⟩
  have hbefore := hread.parse_eq
  have hparse : parse (before ++ rest) = .ok (.term form
      (some (label.elim (String.ofList (Text.trim rest.toList)) fun label =>
        label ++ " " ++ String.ofList (Text.trim rest.toList)))) := by
    have hdrop : Text.dropBytes t.start (before ++ rest).toList = rest.toList := by
      rw [← hstart, ← Text.bytes_toList, String.toList_append, Text.dropBytes_bytes]
    rw [h.parse_eq, hrest, List.head?_cons, Option.elim_some, hdrop]
    cases label <;> rfl
  refine ⟨before, rest, form, label, rfl, hstart, hread, hbefore, hparse, fun session => ?_⟩
  rw [session.rollValue_eq hparse, session.rollValue_eq hbefore, Node.roll_term, Node.roll_term,
    Form.value_rollLabelled, Form.value_rollLabelled]

/-- Behind a label, the rest of the text goes on with it. -/
theorem parse_before_leftover_label :
    let text := "d6! [hit] for 3"
    let node := Node.term (.die
      { sides := .numeric (.int 6), count := .int 1, mods := [.again .explode none] }) (some "hit")
    let leftover :=
      [⟨.failure, 10, "f"⟩, ⟨.error, 11, "o"⟩, ⟨.reroll, 12, "r"⟩, ⟨.integer, 14, "3"⟩]
    ReadsTo text node ⟨some 9, leftover, 15⟩ ∧
      ∃ before rest form label, text = before ++ rest ∧ before.utf8ByteSize = 10 ∧
        Reads before (.term form label) ∧ parse before = .ok (.term form label) ∧
        (let trimmed := String.ofList (Text.trim rest.toList)
         parse text =
          .ok (.term form (some (label.elim trimmed fun label => label ++ " " ++ trimmed)))) ∧
        ∀ session : Session, session.rollValue text = session.rollValue before := by
  intro text node leftover
  have htokens : tokenize text =
      [⟨.d, 0, "d"⟩, ⟨.integer, 1, "6"⟩, ⟨.explode, 2, "!"⟩, ⟨.label, 4, "[hit]"⟩] ++ leftover := by
    decide +kernel
  have hread : ReadsTo text node ⟨some 9, leftover, 15⟩ := by
    rw [ReadsTo, htokens]
    rfl
  exact ⟨hread, parse_before_leftover hread rfl⟩

end DiceNotation
