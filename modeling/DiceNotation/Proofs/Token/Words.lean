import DiceNotation.Proofs.Token.Tiling

/-!
# What texts say

A text is put together from pieces that each say some tokens: which kinds, and
with which spellings (`Token.words`). A piece says the same wherever it stands,
whatever follows (`Token.Opens`), or as long as what follows cannot go on with
its last token (`Token.Spells`).
-/

namespace DiceNotation

/-- Text that can stand in brackets as a label. -/
def Text.IsLabel (text : String) : Prop :=
  text ≠ "" ∧ ∀ c ∈ text.toList, Token.isLabelChar c

/-- Labels with a blank between them are a label. -/
theorem Text.isLabel_intercalate {labels : List String} (hne : labels ≠ [])
    (h : ∀ l ∈ labels, Text.IsLabel l) : Text.IsLabel (" ".intercalate labels) := by
  induction labels with
  | nil => exact absurd rfl hne
  | cons l labels ih =>
    rw [List.forall_mem_cons] at h
    cases labels with
    | nil =>
      rw [String.intercalate_singleton]
      exact h.1
    | cons l' labels =>
      obtain ⟨-, hrest⟩ := ih (List.cons_ne_nil _ _) h.2
      rw [String.intercalate_cons_cons]
      refine ⟨by simp [h.1.1], ?_⟩
      simp only [String.toList_append, List.mem_append]
      rintro c ((hc | hc) | hc)
      · exact h.1.2 c hc
      · obtain rfl : c = ' ' := by simpa using hc
        rfl
      · exact hrest c hc

namespace Token

variable {k : Kind} {cs us vs w : List Char} {ws ws' : List (Kind × String)} {x : Char}

/-! ## One token -/

/-- A text that the patterns of no other kinds describe is one token. -/
theorem next_eq_of_matches {p : Pattern} (hk : k.pattern? = some p) (hp : p.Matches w)
    (honly : ∀ k' p', Kind.pattern? k' = some p' → p'.Matches w → k' = k) (hne : w ≠ []) :
    next w = (k, w.length) := by
  have htaken : w.length ≤ k.extent w := by
    rw [Kind.extent, hk]
    exact Pattern.le_extent hp List.prefix_rfl
  have hlongest := htaken.trans (extent_le_taken k w)
  cases hl : longest w with
  | none =>
    rw [hl] at hlongest
    exact absurd (List.eq_nil_of_length_eq_zero (Nat.le_zero.1 hlongest)) hne
  | some k' =>
    rw [hl] at hlongest
    have hlength : k'.extent w = w.length :=
      Nat.le_antisymm (k'.extent_le_length w) hlongest
    obtain ⟨p', u, hp', hu, hmatches, hu'⟩ := Kind.exists_matches (extent_pos hl)
    obtain rfl := hu.eq_of_length (hu'.trans hlength)
    obtain rfl := honly k' p' hp' hmatches
    rw [next_of_longest_eq_some hl, hlength]

/-- No word begins with a digit. -/
theorem isDigit_head {spelling : String} (hk : k.pattern? = some (.word spelling)) :
    spelling.toList.head?.any Char.isDigit = false := by
  cases k <;> cases hk <;> decide

theorem next_digits {ds : List Char} (hne : ds ≠ []) (hds : ∀ c ∈ ds, c.isDigit) :
    next ds = (.integer, ds.length) := by
  refine next_eq_of_matches rfl (.digits hne hds) (fun k p hk hp => ?_) hne
  cases hp with
  | word spelling =>
    obtain ⟨c, cs, hcs⟩ := List.exists_cons_of_ne_nil hne
    have hc := isDigit_head hk
    rw [hcs, List.head?_cons, Option.any_some,
      hds c (by rw [hcs]; exact List.mem_cons_self)] at hc
    cases hc
  | digits => cases k <;> first | rfl | cases hk
  | @pointed whole fraction => exact absurd (hds '.' (by simp)) (by decide)
  | @bracketed inside => exact absurd (hds '[' (by simp)) (by decide)

/-- Digits with a point between them are one token. -/
theorem next_pointed {whole fraction : List Char} (hwhole : whole ≠ []) (hfraction : fraction ≠ [])
    (hdigits : ∀ c ∈ whole ++ fraction, c.isDigit) :
    next (whole ++ '.' :: fraction) = (.decimal, (whole ++ '.' :: fraction).length) := by
  refine next_eq_of_matches rfl (.pointed hwhole hfraction hdigits) (fun k p hk hp => ?_) (by simp)
  obtain ⟨d, ds, rfl⟩ := List.exists_cons_of_ne_nil hwhole
  have hd : d.isDigit := hdigits d (by simp)
  generalize hw : d :: ds ++ '.' :: fraction = w at hp
  cases hp with
  | word spelling =>
    have hdigit := isDigit_head hk
    rw [← hw, List.cons_append, List.head?_cons, Option.any_some, hd] at hdigit
    cases hdigit
  | digits _ hds => exact absurd (hds '.' (by rw [← hw]; simp)) (by decide)
  | pointed => cases k <;> first | rfl | cases hk
  | bracketed =>
    obtain ⟨rfl, -⟩ := List.cons.inj hw
    exact absurd hd (by decide)

/-- A label in its brackets is one token. -/
theorem next_label {inside : List Char} (hne : inside ≠ [])
    (hinside : ∀ c ∈ inside, isLabelChar c) :
    next ('[' :: inside ++ [']']) = (.label, ('[' :: inside ++ [']']).length) := by
  refine next_eq_of_matches rfl (.bracketed hne hinside) (fun k p hk hp => ?_) (by simp)
  generalize hw : '[' :: inside ++ [']'] = w at hp
  cases hp with
  | word spelling =>
    rcases List.mem_append.1 (mem_tail_of_bracket hk hw.symm) with h | h
    · exact absurd (hinside _ h) (by decide)
    · exact absurd h (by decide)
  | digits _ hds => exact absurd (hds '[' (by rw [← hw]; simp)) (by decide)
  | @pointed whole fraction hwhole _ hdigits =>
    obtain ⟨d, whole, rfl⟩ := List.exists_cons_of_ne_nil hwhole
    obtain ⟨rfl, -⟩ := List.cons.inj hw
    exact absurd (hdigits '[' (by simp)) (by decide)
  | bracketed => cases k <;> first | rfl | cases hk

theorem isGap_of_isDigit (h : x.isDigit) : isGap x = false := by
  refine Bool.eq_false_iff.2 fun hgap => ?_
  simp only [isGap, Bool.or_eq_true, beq_iff_eq] at hgap
  rcases hgap with ((rfl | rfl) | rfl) | rfl <;> revert h <;> decide

/-- A label token has a label in its brackets. -/
theorem Leads.isLabel (h : Leads .label w cs) :
    Text.IsLabel (String.ofList w.tail.dropLast) := by
  obtain ⟨p, hp, hmatches⟩ := (h.takesMost nofun).describes
  cases hp
  cases hmatches with
  | bracketed hne hinside => simpa [Text.IsLabel] using ⟨hne, hinside⟩

/-- A decimal token is digits with a point between them. -/
theorem Leads.exists_pointed (h : Leads .decimal w cs) :
    ∃ whole fraction, w = whole ++ '.' :: fraction ∧ whole ≠ [] ∧
      ∀ c ∈ whole ++ fraction, c.isDigit := by
  obtain ⟨p, hp, hmatches⟩ := (h.takesMost nofun).describes
  cases hp
  cases hmatches with
  | pointed hwhole _ hdigits => exact ⟨_, _, rfl, hwhole, hdigits⟩

/-- A text that is a decimal literal is one token. -/
theorem tokenize_pointed {s : String} {whole fraction : List Char}
    (hs : s.toList = whole ++ '.' :: fraction) (hwhole : whole ≠ []) (hfraction : fraction ≠ [])
    (hdigits : ∀ c ∈ whole ++ fraction, c.isDigit) : tokenize s = [⟨.decimal, 0, s⟩] := by
  have hnext := next_pointed hwhole hfraction hdigits
  have hgapless : s.toList.head?.any isGap = false := by
    obtain ⟨c, cs, rfl⟩ := List.exists_cons_of_ne_nil hwhole
    rw [hs, List.cons_append, List.head?_cons, Option.any_some]
    exact isGap_of_isDigit (hdigits c (by simp))
  rw [← hs] at hnext
  have hleads : Leads .decimal s.toList [] := ⟨by rwa [List.append_nil], hgapless⟩
  have htokens : tokensAt 0 (s.toList ++ []) = _ := hleads.tokensAt_eq
  rwa [List.append_nil, String.ofList_toList, tokensAt_nil] at htokens

/-! ## Words -/

/-- What a token says, wherever it stands. -/
def word (t : Token) : Kind × String := (t.kind, t.text)

/-- What a text says. -/
def words (cs : List Char) : List (Kind × String) := (tokensAt 0 cs).map word

/-- Words are the same wherever their text stands. -/
theorem map_word_tokensAt (start : Nat) (cs : List Char) :
    (tokensAt start cs).map word = words cs := by
  rw [words, ← Nat.zero_add start, tokensAt_add, List.map_map]
  rfl

@[simp] theorem words_nil : words [] = [] := rfl

theorem words_gap (hx : isGap x) : words (x :: cs) = words cs := by
  rw [words, tokensAt_gap hx, map_word_tokensAt]

theorem Leads.words_eq (h : Leads k w cs) : words (w ++ cs) = (k, String.ofList w) :: words cs := by
  rw [words, h.tokensAt_eq, List.map_cons, map_word_tokensAt]
  rfl

/-! ## Pieces of text -/

/-- Whatever stands behind it, the text says these words. -/
def Opens (cs : List Char) (ws : List (Kind × String)) : Prop :=
  ∀ vs, words (cs ++ vs) = ws ++ words vs

/-- The text says these words, if its last token cannot go on behind it. -/
def Spells (cs : List Char) (ws : List (Kind × String)) : Prop :=
  ∀ vs, vs.head?.all breaks → words (cs ++ vs) = ws ++ words vs

/-- A text by itself says what it spells. -/
theorem Spells.words_eq (h : Spells cs ws) : words cs = ws := by
  simpa using h [] (by simp)

theorem opens_gap (hx : isGap x) : Opens [x] [] := fun _ => words_gap hx

/-- A word that nothing can make longer opens a text. -/
theorem opens_of_next (h : ∀ vs, next (w ++ vs) = (k, w.length)) (hw : w.head?.any isGap = false) :
    Opens w [(k, String.ofList w)] :=
  fun vs => Leads.words_eq ⟨h vs, hw⟩

/-- Other words spell their text where something breaks it off. -/
theorem spells_of_next (h : next w = (k, w.length)) (hk : k ≠ .error)
    (hw : w.head?.any isGap = false) : Spells w [(k, String.ofList w)] := by
  have hleads : Leads k w [] := ⟨by rwa [List.append_nil], hw⟩
  intro vs hvs
  cases vs with
  | nil => exact hleads.words_eq
  | cons x vs => exact (hleads.extend hk (by simpa using hvs)).words_eq

/-- A word that is one token. -/
theorem spells_word {text : String} (h : next text.toList = (k, text.toList.length) ∧ k ≠ .error ∧
    text.toList.head?.any isGap = false) : Spells text.toList [(k, text)] := by
  have h := spells_of_next h.1 h.2.1 h.2.2
  rwa [String.ofList_toList] at h

namespace Opens

theorem append (h : Opens us ws) (h' : Opens vs ws') : Opens (us ++ vs) (ws ++ ws') := by
  intro rest
  rw [List.append_assoc, h, h', List.append_assoc]

theorem andSpells (h : Opens us ws) (h' : Spells vs ws') : Spells (us ++ vs) (ws ++ ws') := by
  intro rest hrest
  rw [List.append_assoc, h, h' rest hrest, List.append_assoc]

end Opens

namespace Spells

/-- The second piece begins with what breaks off the first. -/
theorem append (h : Spells us ws) (h' : Spells vs ws') (hbreaks : vs.head?.all breaks) :
    Spells (us ++ vs) (ws ++ ws') := by
  intro rest hrest
  rw [List.append_assoc, h, h' rest hrest, List.append_assoc]
  cases vs with
  | nil => exact hrest
  | cons x vs => exact hbreaks

/-- A breaking character behind a piece closes it. -/
theorem opens (h : Spells us ws) (h' : Opens (x :: vs) ws') (hx : breaks x) :
    Opens (us ++ x :: vs) (ws ++ ws') := by
  intro rest
  rw [List.append_assoc, h, h' rest, List.append_assoc]
  simpa using hx

end Spells

/-- A word between blanks. -/
theorem opens_spaced (h : Spells w ws) : Opens (' ' :: w ++ [' ']) ws := by
  have hspace : Opens [' '] [] := opens_gap rfl
  have h := hspace.append (h.opens hspace (by decide))
  simpa using h

/-! ## Integers and labels -/

/-- The digits of a number are its word. -/
theorem spells_digits (n : Nat) : Spells (toString n).toList [(.integer, toString n)] := by
  have hdigits (c : Char) (hc : c ∈ Nat.toDigits 10 n) : c.isDigit :=
    Nat.isDigit_of_mem_toDigits (by decide) (by decide) hc
  rw [Nat.toString_eq_ofList_toDigits, String.toList_ofList]
  refine spells_of_next (next_digits Nat.toDigits_ne_nil hdigits) nofun ?_
  refine Option.any_eq_false _ _ |>.2 fun c hc => ?_
  exact isGap_of_isDigit (hdigits c (List.mem_of_mem_head? hc))

/-- The words of an integer: its digits, behind a minus if it is below zero. -/
def integerWords (n : Int64) : List (Kind × String) :=
  let digits := [(.integer, toString n.toInt.natAbs)]
  if n.toInt < 0 then (.minus, "-") :: digits else digits

/-- An integer is written as its words, with a minus if it is negative. -/
theorem spells_integer (n : Int64) : Spells (toString n.toInt).toList (integerWords n) := by
  have hdigits := spells_digits n.toInt.natAbs
  rw [Int.toString_eq_repr, Int.repr_eq_if, integerWords]
  by_cases hneg : n.toInt < 0
  · have hminus : Opens ['-'] [(.minus, "-")] := opens_of_next (fun _ => rfl) (by simp [isGap])
    rw [if_pos hneg, if_neg (by omega), String.toList_append,
      show (-n.toInt).toNat = n.toInt.natAbs by omega]
    exact hminus.andSpells hdigits
  · rw [if_neg hneg, if_pos (by omega), show n.toInt.toNat = n.toInt.natAbs by omega]
    exact hdigits

/-- The word of a label. -/
def labelWord (label : String) : Kind × String := (.label, "[" ++ label ++ "]")

/-- A label is written as its word. -/
theorem spells_label {label : String} (h : Text.IsLabel label) :
    Spells (" [" ++ label ++ "]").toList [labelWord label] := by
  have hne : label.toList ≠ [] := fun hnil => h.1 (String.toList_inj.1 hnil)
  have hlabel := spells_of_next (next_label hne h.2) nofun (by simp [isGap])
  have hspace : Opens [' '] [] := opens_gap rfl
  have hword : String.ofList ('[' :: label.toList ++ [']']) = "[" ++ label ++ "]" := by
    apply String.toList_inj.1
    simp
  rw [hword] at hlabel
  simpa [labelWord] using hspace.andSpells hlabel

/-! ## Brackets -/

/-- Words in parentheses. -/
def parens (ws : List (Kind × String)) : List (Kind × String) :=
  (.leftParen, "(") :: ws ++ [(.rightParen, ")")]

/-- Words in braces. -/
def braces (ws : List (Kind × String)) : List (Kind × String) :=
  (.leftBrace, "\x7b") :: ws ++ [(.rightBrace, "\x7d")]

theorem spells_parens (h : Spells cs ws) : Spells ("(".toList ++ cs ++ ")".toList) (parens ws) := by
  have hopen : Opens "(".toList [(.leftParen, "(")] := opens_of_next (fun _ => rfl) (by decide)
  have hclose : Spells ")".toList [(.rightParen, ")")] := spells_word (by decide +kernel)
  rw [List.append_assoc]
  exact hopen.andSpells (h.append hclose (by decide +kernel))

theorem spells_braces (h : Spells cs ws) :
    Spells ("\x7b".toList ++ cs ++ "\x7d".toList) (braces ws) := by
  have hopen : Opens "\x7b".toList [(.leftBrace, "\x7b")] :=
    opens_of_next (fun _ => rfl) (by decide)
  have hclose : Spells "\x7d".toList [(.rightBrace, "\x7d")] := spells_word (by decide +kernel)
  rw [List.append_assoc]
  exact hopen.andSpells (h.append hclose (by decide +kernel))

end Token

end DiceNotation
