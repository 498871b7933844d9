import DiceNotation.Proofs.Grammar.Credits
import DiceNotation.Proofs.Grammar.Trailing

/-!
# The grammar in linear time

What each rule of the grammar has in hand at its start and at its end. A rule that takes a
token has more at its end, which pays for looking around in the rule that called it; so the
sums along a whole expression come out (`Indexed.affords_expression`). Brackets are entered
past their token, and are read at any depth that is as much as what is left.

The reader by index is written for itself, and not as a case of the parser: it keeps its own
position, and it asks for tokens and for bytes that have to be there. So there is a lemma for
each rule that sets the two side by side.
-/

namespace DiceNotation

open Token (Kind)
open Cursor (place)

/-- What follows from where a token starts is the piece up to the end. -/
theorem Token.piece?_from {s : String} {t : Token} (ht : t ∈ tokenize s) :
    Text.piece? t.start s.utf8ByteSize s =
      some (String.ofList (Text.dropBytes t.start s.toList)) := by
  rw [tokenize_eq] at ht
  obtain ⟨before, after, hs, hstart, -⟩ := exists_leads ht
  rw [Nat.zero_add] at hstart
  rw [hs, List.append_assoc, ← hstart, Text.dropBytes_bytes, ← Text.bytes_toList, hs]
  refine Text.piece?_eq_some_iff.2 ⟨before, [], ?_, rfl, ?_⟩
  · rw [String.toList_ofList, List.append_nil, hs, List.append_assoc]
  · rw [String.toList_ofList, ← Text.bytes_append, List.append_assoc]

namespace Indexed

variable {s : String} {i : Nat}

/-! ## Numbers -/

section Literal

variable {value? : String → Option Node} {t : Token} {n : Nat}

/-- The text of a token is a piece of the whole text, and read from there. -/
theorem runAt_literal {node : Node} (ht : t ∈ tokenize s) (hvalue : value? t.text = some node) :
    (literal value? t).runAt s i n = .ok node ⟨i, n⟩ := by
  unfold literal
  rw [runAt_bind, runAt_slice (Token.piece?_eq ht)]
  dsimp only
  rw [hvalue]
  rfl

/-- Where it is no number that fits, its token is refused. -/
theorem runAt_literal_refuse (ht : t ∈ tokenize s) (hvalue : value? t.text = none) :
    (literal value? t).runAt s i n =
      .error (.refused (.onToken .invalidNumber t)) ⟨i, n⟩ := by
  unfold literal
  rw [runAt_bind, runAt_slice (Token.piece?_eq ht)]
  dsimp only
  rw [hvalue]
  exact runAt_refuse ht

/-- A token is taken, and its digits are read or refused. -/
theorem affords_literal {f : Option Token → Indexed Node} {q : Parser Node}
    (ht : (tokenize s)[i]? = some t) (hf : f (some t) = literal value? t)
    (hq : q = (value? t.text).elim (Parser.refuse .invalidNumber) fun node =>
      Parser.skip >>= fun _ => pure node) :
    Affords s i 1 (fun _ => 20) (advance >>= f) q := by
  have hmem := List.mem_of_getElem? ht
  subst hq
  cases hvalue : value? t.text with
  | some node =>
    have hkind : (tokenize s)[i]?.map Token.kind = some t.kind := by rw [ht, Option.map_some]
    refine .skip hkind fun t' ht' _ hi steps => ?_
    obtain rfl : t = t' := Option.some.inj (ht.symm.trans ht')
    rw [hf, runAt_literal hmem hvalue]
    exact .ok (Nat.le_refl _) hi (Nat.le_refl _) (by omega)
  | none =>
    intro hi steps
    have hlt := (List.getElem?_eq_some_iff.1 ht).1
    have hhead : t ∈ (place (tokenize s) s.utf8ByteSize i).rest.head? := by
      rw [Cursor.head?_place, ht]
      rfl
    rw [runAt_bind, runAt_advance ht]
    dsimp only [Option.elim]
    rw [Parser.run_refuse hhead, hf, runAt_literal_refuse hmem hvalue]
    exact .error (Nat.le_succ i) hlt (Nat.le_succ steps) (by omega)

end Literal

theorem affords_magnitude (negative : Bool) :
    Affords s i 2 (fun _ => 20) (magnitude negative) (Parser.magnitude negative) := by
  refine .glance (.look ?_)
  rw [Cursor.sight_place]
  cases ht : (tokenize s)[i]? with
  | none => exact .unexpected
  | some t =>
    obtain ⟨kind, start, text⟩ := t
    by_cases hinteger : kind = .integer
    · subst hinteger
      refine affords_literal ht rfl ?_
      dsimp only [Option.map_some]
      cases Parser.integerValue? text with
      | some n => rfl
      | none => rfl
    by_cases hdecimal : kind = .decimal
    · subst hdecimal
      refine affords_literal ht rfl ?_
      dsimp only [Option.map_some]
      cases Double.ofText? text with
      | some n => rfl
      | none => rfl
    have hother : ¬((some ⟨kind, start, text⟩ : Option Token).map Token.kind = some .integer ∨
        (some ⟨kind, start, text⟩ : Option Token).map Token.kind = some .decimal) := by
      simpa using ⟨hinteger, hdecimal⟩
    rw [if_neg hother, pure_bind]
    cases kind <;> first | contradiction | exact .unexpected

theorem affords_number : Affords s i 4 (fun _ => 20) number Parser.number := by
  rw [Parser.number_eq]
  refine .taking (fun _ => by omega) (.peek fun o ho => ?_)
  refine .ite (fun h => ?_) fun _ => affords_magnitude false
  refine .skip (ho.trans h) fun _ _ _ => ?_
  exact (affords_magnitude true).mono (by omega) fun _ => by omega

theorem affords_least : Affords s i 5 (fun _ => 4) least Parser.least := by
  refine .touching fun o _ => .ite (fun _ => ?_) fun _ => .pure (Nat.le_refl 4)
  exact affords_number.mono (by omega) fun _ => by omega

theorem affords_comparison? :
    Affords s i 3 (fun o => o.elim 1 fun _ => 20) comparison? Parser.comparison? := by
  refine .tick (.touching fun o ho => ?_)
  cases hcompare : o.bind Parser.comparisonOf? with
  | none => exact .pure (Nat.le_refl 1)
  | some compare =>
    obtain ⟨kind, rfl, -⟩ := Option.bind_eq_some_iff.1 hcompare
    exact .skip_pure (ho kind rfl) (Nat.le_refl 20)

theorem affords_extreme? : Affords s i 2 (fun _ => 1) extreme? Parser.extreme? := by
  refine .touching fun o ho => ?_
  cases hextreme : o.bind Parser.extremeOf? with
  | none => exact .pure (Nat.le_refl 1)
  | some extreme =>
    obtain ⟨kind, rfl, -⟩ := Option.bind_eq_some_iff.1 hextreme
    exact .skip_pure (ho kind rfl) (by omega)

/-! ## Brackets and operands -/

/-- The readers of what stands in brackets from here on come to the same. -/
def Encloses (s : String) (i : Nat) (nested : Indexed Node) (nested' : Parser Node) : Prop :=
  ∀ j, i < j → Affords s j 9 (fun _ => 10) nested nested'

section Nested

variable {j : Nat} {nested : Indexed Node} {nested' : Parser Node}
  (h : Encloses s i nested nested')

include h

/-- Further on the readers come to the same too. -/
theorem Encloses.forward (hj : i ≤ j) : Encloses s j nested nested' :=
  fun j' hj' => h j' (Nat.lt_of_le_of_lt hj hj')

theorem affords_parenthesized :
    Affords s i 4 (fun _ => 20) (parenthesized nested) (Parser.parenthesized nested') := by
  refine .taking (fun _ => by omega) (.expect fun _ _ => ?_)
  refine (h (i + 1) (Nat.lt_succ_self i)).bind (r := 12) fun node j hj => ?_
  exact .expect fun _ _ => .pure (by omega)

theorem affords_inline :
    Affords s i 4 (fun _ => 20) (inline nested) (Parser.inline nested') := by
  refine .taking (fun _ => by omega) (.expect fun _ _ => ?_)
  refine (h (i + 1) (Nat.lt_succ_self i)).bind (r := 12) fun node j hj => ?_
  exact .expect fun _ _ => .pure (by omega)

theorem affords_operand :
    Affords s i 6 (fun _ => 20) (operand nested) (Parser.operand nested') := by
  refine .taking (fun _ => by omega) (.touching fun o ho => ?_)
  cases o with
  | none => exact .unexpected
  | some kind =>
    cases kind
    case integer | decimal | minus => exact affords_number
    case leftParen => exact affords_parenthesized h
    case inlineOpen => exact affords_inline h
    all_goals exact .unexpected

/-- An operand that is missing has cost the look for it. -/
theorem affords_operand? :
    Affords s i 7 (fun _ => 6) (operand? nested) (Parser.operand? nested') := by
  refine .touching fun o _ => ?_
  cases o with
  | none => exact .pure (Nat.le_refl 6)
  | some kind =>
    refine .ite (fun _ => ?_) fun _ => .pure (Nat.le_refl 6)
    exact (affords_operand h).map (Nat.le_refl 6) fun _ => by omega

theorem affords_condition :
    Affords s i 9 (fun _ => 20) (condition nested) (Parser.condition nested') := by
  refine .taking (fun _ => by omega) (affords_comparison?.bind (r := 5) fun compare j hj => ?_)
  have hoperand := affords_operand (h.forward hj)
  cases compare with
  | some compare => exact hoperand.bind (r := 19) fun _ _ _ => .pure (by omega)
  | none => exact hoperand.bind (r := 0) fun _ _ _ => .pure (by omega)

theorem affords_trigger? :
    Affords s i 10 (fun _ => 6) (trigger? nested) (Parser.trigger? nested') := by
  refine .tick (affords_comparison?.bind (r := 6) fun compare j hj => ?_)
  cases compare with
  | some compare =>
    exact (affords_operand (h.forward hj)).bind (r := 20) fun _ _ _ => .pure (by omega)
  | none => exact (affords_operand? (h.forward hj)).bind (r := 0) fun _ _ _ => .pure (by omega)

/-! ## Modifiers -/

/-- That a keep or a drop stands here is known from a look before. -/
theorem affords_selection {kind : Kind} (hkind : (tokenize s)[i]?.map Token.kind = some kind) :
    Affords s i 2 (fun _ => 18) (selection nested) (Parser.selection nested') := by
  rw [Parser.selection_eq]
  refine .taking (fun _ => by omega) (.glimpse ?_)
  rw [hkind]
  refine .skip hkind fun t _ ht => ?_
  subst ht
  refine affords_extreme?.bind (r := 18) fun extreme j hj => ?_
  exact (affords_operand? (h.forward (by omega))).bind (r := 12) fun _ _ _ => .pure (by omega)

theorem affords_matchCondition? :
    Affords s i 8 (fun _ => 6) (matchCondition? nested) (Parser.matchCondition? nested') := by
  refine affords_comparison?.bind (r := 5) fun compare j hj => ?_
  cases compare with
  | some compare =>
    exact (affords_operand (h.forward hj)).bind (r := 19) fun _ _ _ => .pure (by omega)
  | none => exact .pure (Nat.le_refl 6)

/-- So it is of a match. -/
theorem affords_matching {kind : Kind} (hmatching : kind = .match ∨ kind = .matchCount)
    (hkind : (tokenize s)[i]?.map Token.kind = some kind) :
    Affords s i 2 (fun _ => 17) (matching nested) (Parser.matching nested') := by
  rw [Parser.matching_eq]
  refine .taking (fun _ => by omega) (.glimpse ?_)
  rw [hkind]
  refine .skip hkind fun t _ ht => ?_
  have hcounts : (some t).map Token.kind = some .matchCount ↔ some kind ≠ some .match := by
    rw [Option.map_some, ht]
    rcases hmatching with rfl | rfl
    · decide
    · decide
  simp only [hcounts]
  refine affords_least.bind (r := 15) fun least j hj => ?_
  exact (affords_matchCondition? (h.forward (by omega))).bind (r := 11) fun _ _ _ =>
    .pure (by omega)

/-- A modifier brings more than the look for it costs; without one the steps in hand are
left. -/
theorem affords_dieSuffix (spec : DieSpec Node) :
    Affords s i 10 (fun o => o.elim 9 fun _ => 20) (dieSuffix nested spec)
      (Parser.dieSuffix nested' spec) := by
  refine .touching fun o ho => ?_
  cases o with
  | none => exact .pure (Nat.le_refl 9)
  | some kind =>
    have hkind := ho kind rfl
    -- keep and drop, then the ways of rolling again
    refine .ite (fun _ => ?_) fun _ => ?_
    · exact (affords_selection h hkind).bind (r := 7) fun _ _ _ => .pure (by simp)
    cases Parser.mechanicOf? kind with
    | some mechanic =>
      refine .skip hkind fun _ _ _ => ?_
      exact (affords_trigger? (h.forward (Nat.le_succ i))).bind (r := 18) fun _ _ _ =>
        .pure (by simp)
    | none =>
    -- a comparison alone tests for success, the other tests have a sign
    refine .ite (fun _ => ?_) fun _ => ?_
    · exact (affords_condition h).bind (r := 0) fun _ _ _ => .pure (by simp)
    cases Parser.testOf? kind with
    | some meaning =>
      refine .skip hkind fun _ _ _ => ?_
      exact (affords_condition (h.forward (Nat.le_succ i))).bind (r := 19) fun _ _ _ =>
        .pure (by simp)
    | none =>
    -- a match and a sort, unless there is one already
    refine .ite (fun hmatching => .ite (fun _ => .refuseNext hkind) fun _ => ?_) fun _ => ?_
    · exact (affords_matching h hmatching hkind).bind (r := 7) fun _ _ _ => .pure (by simp)
    cases Parser.sortOf? kind with
    | some order => exact .ite (fun _ => .refuseNext hkind) fun _ => .skip_pure hkind (by simp)
    | none => exact .pure (Nat.le_refl 9)

theorem affords_groupSuffix :
    Affords s i 10 (fun o => o.elim 9 fun _ => 20) (groupSuffix nested)
      (Parser.groupSuffix nested') := by
  refine .touching fun o ho => ?_
  cases o with
  | none => exact .pure (Nat.le_refl 9)
  | some kind =>
    have hkind := ho kind rfl
    refine .ite (fun _ => ?_) fun _ => .ite (fun _ => ?_) fun _ => .ite (fun _ => ?_) fun _ =>
      .ite (fun _ => .refuseNext hkind) fun _ => .pure (Nat.le_refl 9)
    · exact (affords_selection h hkind).map (by omega) fun _ => by simp
    · exact (affords_condition h).bind (r := 0) fun _ _ _ => .pure (by simp)
    · refine .skip hkind fun _ _ _ => ?_
      exact (affords_condition (h.forward (Nat.le_succ i))).bind (r := 19) fun _ _ _ =>
        .pure (by simp)

/-! ## Dice and groups -/

/-- Sides are paid for by a token. -/
theorem affords_sides : Affords s i 5 (fun _ => 20) (sides nested) (Parser.sides nested') := by
  refine .touching fun o ho => ?_
  cases o with
  | none => exact .unexpected
  | some kind =>
    cases kind
    case integer => exact affords_number.bind (r := 0) fun _ _ _ => .pure (by omega)
    case fate => exact .skip_pure (ho _ rfl) (by omega)
    case leftParen => exact (affords_parenthesized h).bind (r := 0) fun _ _ _ => .pure (by omega)
    case inlineOpen => exact (affords_inline h).bind (r := 0) fun _ _ _ => .pure (by omega)
    all_goals exact .unexpected

/-- Modifiers that follow each other pay for themselves. -/
theorem affords_dieSuffixes (spec : DieSpec Node) :
    Affords s i 12 (fun _ => 9) (dieSuffixes nested spec)
      (Parser.iterate (Parser.dieSuffix nested') spec) :=
  .tick (.iterate (by omega) (fun spec _ hj => affords_dieSuffix (h.forward hj) spec)
    (Parser.declines_dieSuffix nested') spec)

theorem affords_dice (count : Node) :
    Affords s i 3 (fun _ => 20) (dice nested count) (Parser.dice nested' count) := by
  refine .taking (fun _ => by omega) (.expect fun _ _ => ?_)
  have h := h.forward (Nat.le_succ i)
  refine (affords_sides h).bind (r := 15) fun sides j hj => ?_
  exact (affords_dieSuffixes (h.forward hj) _).bind (r := 23) fun _ _ _ => .pure (by omega)

/-- A number that counts no dice has cost the look for a `d`. -/
theorem affords_countOrDice (count : Node) :
    Affords s i 5 (fun _ => 3) (countOrDice nested count) (Parser.countOrDice nested' count) := by
  refine .tick (.touching fun o _ => .ite (fun _ => ?_) fun _ => .pure (Nat.le_refl 3))
  exact (affords_dice h count).mono (Nat.le_refl 3) fun _ => by omega

theorem affords_member? :
    Affords s i 2 (fun o => o.elim 1 fun _ => 20) (member? nested) (Parser.member? nested') := by
  unfold Parser.member?
  rw [Parser.accept_bind]
  refine .peek fun o ho => .ite (fun hcomma => ?_) fun _ => .pure (Nat.le_refl 1)
  refine .skip (ho.trans hcomma) fun _ _ _ => ?_
  exact (h (i + 1) (Nat.lt_succ_self i)).map (by omega) fun _ => by simp

theorem affords_group : Affords s i 3 (fun _ => 20) (group nested) (Parser.group nested') := by
  refine .taking (fun _ => by omega) (.expect fun _ _ => ?_)
  refine (h (i + 1) (Nat.lt_succ_self i)).bind (r := 11) fun first j₁ hj₁ => ?_
  have hmembers : Affords s j₁ 3 (fun _ => 1) (many (member? nested))
      (Parser.many (Parser.member? nested')) :=
    .many (by omega) (fun j hj => affords_member? (h.forward (by omega)))
      (Parser.declines_member? nested')
  refine hmembers.bind (r := 18) fun rest j₂ hj₂ => .expect fun _ _ => ?_
  have hsuffixes : Affords s (j₂ + 1) 11 (fun _ => 9) (many (groupSuffix nested))
      (Parser.many (Parser.groupSuffix nested')) :=
    .many (by omega) (fun j hj => affords_groupSuffix (h.forward (by omega)))
      (Parser.declines_groupSuffix nested')
  exact hsuffixes.bind (r := 26) fun _ _ _ => .pure (by omega)

/-! ## Expressions -/

omit h in
/-- The inside of a label is cut out of the token that stands there. -/
theorem affords_label? :
    Affords s i 4 (fun o => o.elim 3 fun _ => 20) label? Parser.label? := by
  rw [Parser.label?_eq]
  refine .glance (.look ?_)
  rw [Cursor.sight_place]
  cases ht : (tokenize s)[i]? with
  | none => exact .pure (Nat.le_refl 3)
  | some t =>
    have hmem := List.mem_of_getElem? ht
    obtain ⟨kind, start, text⟩ := t
    by_cases hlabel : kind = .label
    · subst hlabel
      have hinside : Affords s i 3 (fun _ => 20) label
          (Parser.skip >>= fun _ => pure (String.ofList text.toList.tail.dropLast)) := by
        have hkind : (tokenize s)[i]?.map Token.kind = some .label := by rw [ht, Option.map_some]
        refine .taking (fun _ => by omega) (.demand (c := 0) hkind fun t' ht' => ?_)
        obtain rfl := Option.some.inj (ht.symm.trans ht')
        exact .slice (Token.piece?_eq hmem) (.pieceOf (Token.piece?_label hmem rfl) (by omega))
      have hlabel := hinside.map (f := some) (c := 3) (Nat.le_refl 3)
        (z := fun o => o.elim 3 fun _ => 20) fun _ => by simp
      rwa [map_bind] at hlabel
    · have hother : (some ⟨kind, start, text⟩ : Option Token).map Token.kind ≠ some .label := by
        simpa using hlabel
      rw [if_neg hother]
      cases kind <;> first | contradiction | exact .pure (Nat.le_refl 3)

theorem affords_function {kind : Kind} {fn : NumFn} (hfn : Parser.functionOf? kind = some fn)
    (hkind : (tokenize s)[i]?.map Token.kind = some kind) :
    Affords s i 2 (fun _ => 20) (function nested) (Parser.skip >>= fun _ =>
      Parser.parenthesized nested' >>= fun node => pure (.function fn node)) := by
  refine .taking (fun _ => by omega) (.skip hkind fun t _ ht => ?_)
  rw [Option.bind_some, ht, hfn]
  exact (affords_parenthesized (h.forward (Nat.le_succ i))).bind (r := 16) fun _ _ _ =>
    .pure (by omega)

/-- Each term takes a token, which pays for the levels above it. -/
theorem affords_bareTerm :
    Affords s i 5 (fun _ => 18) (bareTerm nested) (Parser.bareTerm nested') := by
  have hcount {p : Indexed Node} {p' : Parser Node} (hp : Affords s i 4 (fun _ => 20) p p') :
      Affords s i 4 (fun _ => 18) (p >>= countOrDice nested)
        (p' >>= Parser.countOrDice nested') :=
    hp.bind (r := 0) fun count j hj =>
      (affords_countOrDice (h.forward hj) count).mono (by omega) fun _ => by omega
  have hsigned : Affords s i 4 (fun _ => 18)
      (number >>= fun node => touching >>= fun o =>
        if o = some .d then unexpected [.plus, .minus] else pure node)
      (Parser.number >>= fun node => Parser.touching >>= fun o =>
        if o = some .d then Parser.unexpected [.plus, .minus] else pure node) :=
    affords_number.bind (r := 0) fun node j _ =>
      .touching fun o _ => .ite (fun _ => .unexpected) fun _ => .pure (by omega)
  -- the first token tells which rule reads the term
  refine .peek fun o ho => ?_
  cases o with
  | none => exact .unexpected
  | some kind =>
    cases kind
    case integer => exact hcount affords_number
    case decimal | minus => exact hsigned
    case leftParen => exact hcount (affords_parenthesized h)
    case inlineOpen => exact hcount (affords_inline h)
    case leftBrace => exact (affords_group h).mono (by omega) fun _ => by omega
    case d => exact (affords_dice h (.int 1)).mono (by omega) fun _ => by omega
    case floor | ceil | round | abs =>
      exact (affords_function h rfl ho).mono (by omega) fun _ => by omega
    all_goals exact .unexpected

theorem affords_term : Affords s i 6 (fun _ => 16) (term nested) (Parser.term nested') := by
  refine .taking (fun _ => by omega) ((affords_bareTerm h).bind (r := 0) fun node j _ => ?_)
  have hlabels : Affords s j 5 (fun _ => 3) (many label?) (Parser.many Parser.label?) :=
    .many (by omega) (fun _ _ => affords_label?) Parser.declines_label?
  refine hlabels.bind (r := 13) fun labels _ _ => ?_
  cases labels with
  | nil => exact .pure (Nat.le_refl 16)
  | cons label labels => exact .pure (Nat.le_refl 16)

omit h in
/-- Terms with operators of one level between them. -/
theorem affords_chained {ω : Type} {opOf? : Kind → Option ω} {e g : Nat} {operand : Indexed Node}
    {operand' : Parser Node} {build : Node → List (Link ω Node) → Node} (he : e ≤ 20)
    (hg : e ≤ g) (h : ∀ j, i ≤ j → Affords s j e (fun _ => g + 3) operand operand') :
    Affords s i (e + 1) (fun _ => g + 1)
      (taking do
        let head ← operand
        return build head (← many (link? opOf? operand)))
      (do return build (← operand') (← Parser.many (Parser.link? opOf? operand'))) := by
  have hlink (j : Nat) (hj : i ≤ j) : Affords s j 2 (fun o => o.elim 1 fun _ => 20)
      (link? opOf? operand) (Parser.link? opOf? operand') := by
    refine .peek fun o ho => ?_
    cases hop : o.bind opOf? with
    | none => exact .pure (Nat.le_refl 1)
    | some op =>
      obtain ⟨kind, rfl, -⟩ := Option.bind_eq_some_iff.1 hop
      refine .skip ho fun _ _ _ => ?_
      exact ((h _ (by omega)).mono he (d := fun _ => 20) fun _ => by omega).before fun _ _ _ _ =>
        .pure (Nat.le_refl 20)
  refine .taking (fun _ => by omega) ((h i (Nat.le_refl i)).before fun head j hj _ => ?_)
  have hlinks : Affords s j 3 (fun _ => 1) (many (link? opOf? operand))
      (Parser.many (Parser.link? opOf? operand')) :=
    .many (by omega) (fun j' hj' => hlink j' (by omega)) (Parser.declines_link? opOf? operand')
  exact hlinks.bind (r := g) fun _ _ _ => .pure (Nat.le_refl (g + 1))

theorem affords_power : Affords s i 7 (fun _ => 14) (power nested) (Parser.power nested') :=
  affords_chained (g := 13) (by omega) (by omega) fun _ hj => affords_term (h.forward hj)

theorem affords_product : Affords s i 8 (fun _ => 12) (product nested) (Parser.product nested') :=
  affords_chained (g := 11) (by omega) (by omega) fun _ hj => affords_power (h.forward hj)

theorem affords_sum : Affords s i 9 (fun _ => 10) (sum nested) (Parser.sum nested') :=
  affords_chained (g := 9) (by omega) (by omega) fun _ hj => affords_product (h.forward hj)

end Nested

/-- **Expressions are read in linear time**, with any depth that is enough for the tokens that
are left. -/
theorem affords_expression {depth depth' : Nat} (h : (tokenize s).length - i < depth)
    (h' : (tokenize s).length - i ≤ depth') :
    Affords s i 9 (fun _ => 10) (expression depth) (Parser.expression depth') := by
  induction depth generalizing i depth' with
  | zero => exact absurd h (Nat.not_lt_zero _)
  | succ depth ih =>
    cases depth' with
    | zero =>
      -- behind the last token there is no bracket, and every depth refuses the end
      have hend : (tokenize s).length ≤ i := by omega
      have hrest : (place (tokenize s) s.utf8ByteSize i).rest = [] := List.drop_eq_nil_of_le hend
      have hterm : (Parser.bareTerm (Parser.expression 0)).run
          (place (tokenize s) s.utf8ByteSize i) =
            .error ((place (tokenize s) s.utf8ByteSize i).unexpected Parser.termStart) := by
        unfold Parser.bareTerm
        rw [Parser.peek_bind, Parser.run_look_bind, Cursor.sight_eq_none.2 hrest]
        rfl
      have hsum : Affords s i 9 (fun _ => 10) (expression (depth + 1))
          (Parser.sum (Parser.expression 0)) := affords_sum fun j hj hle => by omega
      intro hi steps
      have hsum := hsum hi steps
      rw [Parser.run_sum_of_bareTerm_error hterm] at hsum
      exact hsum
    | succ depth' => exact affords_sum fun j hj hle => ih (by omega) (by omega) hle

/-! ## Whole texts -/

/-- A whole text is read like an expression, and comes to what it is parsed to. -/
theorem exists_settles_text {depth : Nat} (h : (tokenize s).length < depth) :
    ∃ o, Settles s 0 0 9 (fun _ => 10) ((text depth).runAt s 0 0) o ∧ parse s = Prod.fst <$> o := by
  have hread := affords_expression (i := 0) h (Nat.le_refl _) (Nat.zero_le _) 0
  unfold text
  rw [runAt_bind]
  revert hread
  generalize (expression depth).runAt s 0 0 = o
  generalize hrun : (Parser.expression _).run _ = o'
  rintro (⟨hij, hj, hsteps, hpaid⟩ | ⟨hij, hj, hsteps, hpaid⟩)
  · -- what is left over is cut out and becomes a part of the label
    next node j n =>
    have hparse := ReadsTo.parse_eq hrun
    rw [Cursor.head?_place] at hparse
    dsimp only
    rw [runAt_bind, runAt_here]
    cases ht : (tokenize s)[j]? with
    | none =>
      rw [ht] at hparse
      exact ⟨.ok (node, _), .ok hij hj hsteps hpaid, hparse⟩
    | some t =>
      rw [ht] at hparse
      refine ⟨.ok (_, place (tokenize s) s.utf8ByteSize j), ?_, hparse⟩
      change Settles s 0 0 9 (fun _ => 10) ((slice t.start s.utf8ByteSize >>= fun left => Pure.pure
        (node.extendLabel (String.ofList (Text.trim left.toList)))).runAt s j n) _
      rw [runAt_bind, runAt_slice (Token.piece?_from (List.mem_of_getElem? ht))]
      dsimp only
      rw [String.toList_ofList]
      exact .ok hij hj hsteps hpaid
  · exact ⟨_, .error hij hj hsteps hpaid, parse_eq_error hrun⟩

end Indexed

end DiceNotation
