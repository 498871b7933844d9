import DiceNotation.Proofs.Grammar.Points
import DiceNotation.Proofs.Grammar.Reading
import DiceNotation.Proofs.Token.Words

/-!
# Where texts are refused

An error points at what it reports (`parse_error_points`): at the token that it names and
that its cause suits, or at the end of the text, and what it quotes is the text there.
-/

namespace DiceNotation

open Token (Kind)

namespace ParseError

/-- What the cause says of a token is true of it. -/
def Cause.Suits (t : Token) : Cause → Prop
  | unexpectedToken found _ => found = some t.kind ∧ t.kind ≠ .error
  | unexpectedString _ => t.kind = .error
  | invalidNumber =>
    (t.kind = .integer ∨ t.kind = .decimal) ∧ t.kind.Describes t.text.toList
  | invalidGroupModifier kind => kind = t.kind ∧ t.kind ∈ Parser.diceOnly
  | duplicateModifier kind => kind = t.kind ∧ t.kind ∈ Parser.diceOnly

/-- Gaps stand between the token and the one before it. -/
def Separated (s : String) (before : List Token) (t : Token) : Prop :=
  ∃ t' ∈ before.getLast?, ∃ start gaps rest,
    s.toList = start ++ t'.text.toList ++ gaps ++ t.text.toList ++ rest ∧
    Text.bytes start = t'.start ∧ t'.stop + Text.bytes gaps = t.start ∧
    gaps ≠ [] ∧ ∀ c ∈ gaps, c ∈ [' ', '\t', '\r', '\n']

/-- The error is about this token of the text. One that would have been expected is refused
for the gaps in front of it only. -/
structure IsAbout (e : ParseError) (s : String) (before : List Token) (t : Token)
    (after : List Token) : Prop where
  isToken : tokenize s = before ++ t :: after
  eq_onToken : e = .onToken e.cause t
  suits : e.cause.Suits t
  unknown_iff : (∃ expected, e.cause = .unexpectedString expected) ↔ t.kind = .error
  separated : ∀ found expected, e.cause = .unexpectedToken (some found) expected →
    found ∈ expected → Separated s before t

/-- The error points at what it reports. -/
structure PointsInto (e : ParseError) (s : String) : Prop where
  /-- What is quoted is the text between the two bytes, at which characters begin. -/
  slice : ∃ before after, s.toList = before ++ e.slice.toList ++ after ∧
    Text.bytes before = e.start ∧ e.start + Text.bytes e.slice.toList = e.stop
  /-- Nothing is quoted exactly if nothing was found. -/
  ending_iff : (∃ expected, e.cause = .unexpectedToken none expected) ↔ e.start = e.stop
  subject : (∃ expected, e = ⟨.unexpectedToken none expected, s.utf8ByteSize, s.utf8ByteSize, ""⟩) ∨
    ∃ before t after, e.IsAbout s before t after

end ParseError

/-! ## Errors about tokens -/

/-- An unknown token is none that only dice have. -/
theorem Parser.ne_error_of_mem_diceOnly {kind : Kind} (h : kind ∈ diceOnly) : kind ≠ .error := by
  rintro rfl
  revert h
  decide

/-- Only of unknown tokens an error says that it does not know them. -/
theorem ParseError.Cause.Suits.unknown_iff {cause : Cause} {t : Token} (h : cause.Suits t) :
    (∃ expected, cause = .unexpectedString expected) ↔ t.kind = .error := by
  cases cause with
  | unexpectedString expected => exact iff_of_true ⟨expected, rfl⟩ h
  | unexpectedToken => exact iff_of_false nofun h.2
  | invalidGroupModifier | duplicateModifier =>
    exact iff_of_false nofun (Parser.ne_error_of_mem_diceOnly h.2)
  | invalidNumber =>
    refine iff_of_false nofun fun hkind => ?_
    rcases h.1 with h | h <;> cases hkind.symm.trans h

section Tokens

variable {s : String} {e : ParseError} {before after : List Token} {t : Token}

/-- A token of a text stands in it. -/
theorem Token.exists_leads_of_eq (h : tokenize s = before ++ t :: after) :
    ∃ u v, s.toList = u ++ t.text.toList ++ v ∧ Text.bytes u = t.start ∧
      Leads t.kind t.text.toList v := by
  have ht : t ∈ tokenize s := by
    rw [h]
    simp
  rw [tokenize_eq] at ht
  obtain ⟨u, v, hs, hstart, hleads⟩ := exists_leads ht
  exact ⟨u, v, hs, (Nat.zero_add _).symm.trans hstart, hleads⟩

/-- A literal token is one. -/
theorem Token.describes (h : tokenize s = before ++ t :: after)
    (hkind : t.kind = .integer ∨ t.kind = .decimal) : t.kind.Describes t.text.toList := by
  obtain ⟨u, v, -, -, hleads⟩ := exists_leads_of_eq h
  refine (hleads.takesMost fun herror => ?_).describes
  rcases hkind with hkind | hkind <;> cases herror.symm.trans hkind

/-- An error about a token points to where the token stands. -/
theorem ParseError.IsAbout.pointsInto (h : e.IsAbout s before t after) : e.PointsInto s := by
  obtain ⟨u, v, hs, hstart, hleads⟩ := Token.exists_leads_of_eq h.isToken
  have hpos := Text.bytes_pos hleads.ne_nil
  have hsuits := h.suits
  have hstop : e.start + Text.bytes e.slice.toList = e.stop := by
    rw [h.eq_onToken, Text.bytes_toList]
    rfl
  refine ⟨?_, ?_, .inr ⟨before, t, after, h⟩⟩
  · rw [h.eq_onToken] at hstop ⊢
    exact ⟨u, v, hs, hstart, hstop⟩
  · rw [h.eq_onToken] at hstop ⊢
    refine iff_of_false ?_ (Nat.ne_of_lt (hstop ▸ Nat.lt_add_of_pos_right hpos))
    rintro ⟨expected, hcause⟩
    rw [show e.cause = _ from hcause] at hsuits
    cases hsuits.1

/-- Between a token and one before it that it does not touch are gaps. -/
theorem ParseError.separated {t' : Token} {ts : List Token}
    (h : tokenize s = ts ++ t' :: t :: after) (hne : t'.stop ≠ t.start) :
    Separated s (ts ++ [t']) t := by
  rw [Token.tokenize_eq] at h
  obtain ⟨start, gaps, rest, hs, hstart, hgaps, hisGap⟩ := Token.exists_between h
  refine ⟨t', by simp, start, gaps, rest, hs, (Nat.zero_add _).symm.trans hstart, hgaps, ?_, ?_⟩
  · rintro rfl
    exact hne hgaps
  · intro c hc
    simpa [Token.isGap, or_assoc] using hisGap c hc

end Tokens

/-! ## Errors of texts -/

/-- A text is refused by the reading of its expression. -/
theorem run_expression_eq_error {s : String} {e : ParseError} (h : parse s = .error e) :
    (Parser.expression (tokenize s).length).run (.start (tokenize s) s.utf8ByteSize) =
      .error e := by
  generalize hread : (Parser.expression (tokenize s).length).run
    (.start (tokenize s) s.utf8ByteSize) = answer
  cases answer with
  | error e' =>
    rw [parse_eq_error hread] at h
    rw [Except.error.inj h]
  | ok read =>
    have hparse : parse s = .ok _ := ReadsTo.parse_eq hread
    rw [hparse] at h
    cases h

/-- The end of a text, where nothing is under an error. -/
theorem ParseError.pointsInto_end (s : String) (expected : List Kind) :
    PointsInto ⟨.unexpectedToken none expected, s.utf8ByteSize, s.utf8ByteSize, ""⟩ s where
  slice := ⟨s.toList, [], by simp, Text.bytes_toList s, rfl⟩
  ending_iff := iff_of_true ⟨expected, rfl⟩ rfl
  subject := .inl ⟨expected, rfl⟩

open ParseError in
/-- **Errors point at what they report**: at a token that the cause suits, or at the end
of the text. -/
theorem parse_error_points {s : String} {e : ParseError} (h : parse s = .error e) :
    e.PointsInto s := by
  obtain ⟨j, -, hj, hblames⟩ := Parser.points_expression (Nat.le_add_left _ 0) (Nat.zero_le _) e
    (run_expression_eq_error h)
  -- a token that is blamed is the next one at its place
  have htoken {t : Token} (ht : t ∈ ((tokenize s).drop j).head?) :
      tokenize s = (tokenize s).take j ++ t :: (tokenize s).drop (j + 1) := by
    obtain ⟨us, hus⟩ := List.head?_eq_some_iff.1 ht
    rw [← List.drop_drop, hus, List.drop_one, List.tail_cons, ← hus, List.take_append_drop]
  have habout {t : Token} {cause : Cause} (ht : t ∈ ((tokenize s).drop j).head?)
      (hsuits : cause.Suits t)
      (hcause : ∀ found expected, cause = .unexpectedToken (some found) expected →
        found ∈ expected → Separated s ((tokenize s).take j) t) :
      PointsInto (.onToken cause t) s :=
    IsAbout.pointsInto ⟨htoken ht, rfl, hsuits, hsuits.unknown_iff, hcause⟩
  cases hblames with
  | ending h => exact pointsInto_end s _
  | unexpected ht hkind hloose =>
    refine habout ht ⟨rfl, hkind⟩ ?_
    rintro found expected hcause hfound
    cases hcause
    -- it was expected, so it has a gap in front
    obtain ⟨stop, hprevious, hne⟩ := (hloose hfound).exists_stop ht
    obtain ⟨t', ht', rfl⟩ := Option.map_eq_some_iff.1 hprevious
    obtain ⟨ts, hts⟩ := List.getLast?_eq_some_iff.1 ht'
    have htokens := htoken ht
    rw [hts, List.append_assoc] at htokens
    rw [hts]
    exact separated htokens hne
  | unknown ht hkind => exact habout ht hkind nofun
  | number ht hkind => exact habout ht ⟨hkind, Token.describes (htoken ht) hkind⟩ nofun
  | group ht hkind => exact habout ht ⟨rfl, hkind⟩ nofun
  | duplicate ht hkind => exact habout ht ⟨rfl, hkind⟩ nofun

/-- The sides of dice have to touch the `d`; here an integer is expected, and not found. -/
theorem parse_error_points_apart :
    let e : ParseError :=
      ⟨.unexpectedToken (some .integer) [.integer, .fate, .leftParen, .inlineOpen], 3, 4, "6"⟩
    parse "3d 6" = .error e ∧ e.PointsInto "3d 6" := by
  intro e
  have htokens : tokenize "3d 6" = [⟨.integer, 0, "3"⟩, ⟨.d, 1, "d"⟩, ⟨.integer, 3, "6"⟩] := by
    decide +kernel
  have hparse : parse "3d 6" = .error e := parse_eq_error (by rw [htokens]; rfl)
  exact ⟨hparse, parse_error_points hparse⟩

end DiceNotation
