import DiceNotation.Proofs.Token.Words
import Mathlib.Data.List.Chain

/-!
# Words side by side

Words that are put together without gaps between them are the tokens of the text
(`Token.Apart.tokensAt_eq`), as long as no word can go on with the character that
the next one begins with (`Token.parts`). Each of these tokens touches the one
before it.

The words here are those with one spelling, and digits.
-/

namespace DiceNotation

/-- Decimal digits, at least one; zeros may come first. -/
structure Digits where
  text : String
  ne_empty : text ≠ ""
  isDigit : ∀ c ∈ text.toList, c.isDigit

/-- The number that the digits write. -/
def Digits.value (ds : Digits) : Nat := Nat.ofDigitChars 10 ds.text.toList 0

theorem Digits.exists_head (ds : Digits) : ∃ c ∈ ds.text.toList.head?, c.isDigit := by
  obtain ⟨c, cs, hcs⟩ := List.exists_cons_of_ne_nil fun h => ds.ne_empty (String.toList_inj.1 h)
  exact ⟨c, by rw [hcs]; rfl, ds.isDigit c (by rw [hcs]; exact List.mem_cons_self)⟩

namespace Token

variable {k k' : Kind} {start : Nat} {cs v w : List Char} {ws ws' : List (Kind × String)} {x : Char}

/-! ## Where a word ends -/

/-- A word of one spelling begins so. -/
def begins (u : List Char) : Bool := Kind.all.any fun k =>
  match k.pattern? with
  | some (.word spelling) => u.isPrefixOf spelling.toList
  | _ => false

/-- The beginning of a word is one. -/
theorem begins_of_isSpelling {spelling : String} (hk : k.pattern? = some (.word spelling))
    (hu : w <+: spelling.toList) : begins w := by
  refine List.any_eq_true.2 ⟨k, Kind.mem_all_of_pattern? hk, ?_⟩
  rw [hk]
  exact List.isPrefixOf_iff_prefix.2 hu

/-- The word is the beginning of no longer match that goes on with the character. -/
def parts (w : List Char) (x : Char) : Bool :=
  w.head? != some '[' && (!w.head?.any Char.isDigit || !x.isDigit && x != '.') &&
    !begins (w ++ [x])

/-- Where no longer match goes on, what stands behind is not taken. -/
theorem extent_append_of_parts (h : parts w x) (hw : w ≠ []) (k : Kind) :
    k.extent (w ++ x :: v) = k.extent w := by
  simp only [parts, Bool.and_eq_true, Bool.or_eq_true, Bool.not_eq_true', bne_iff_ne] at h
  obtain ⟨⟨hbracket, hdigit⟩, hwords⟩ := h
  obtain ⟨c, cs, rfl⟩ := List.exists_cons_of_ne_nil hw
  refine Kind.extent_of_append (Nat.le_of_not_lt fun hlt => ?_)
  obtain ⟨p, u, hp, hu, hmatches, hlength⟩ := Kind.exists_matches (Nat.zero_lt_of_lt hlt)
  -- the match would begin with the word and the character behind it
  have hux : c :: cs ++ [x] <+: u := by
    refine List.prefix_of_prefix_length_le ⟨v, by simp⟩ hu ?_
    simp only [List.length_append, List.length_singleton]
    omega
  obtain ⟨us, rfl⟩ := hux
  have hlexeme (hc : c.isDigit) (hx : x.isDigit ∨ x = '.') : False := by
    rcases hdigit with h | h
    · simp [hc] at h
    · rcases hx with hx | hx
      · simp [hx] at h
      · exact h.2 hx
  generalize hmatch : c :: cs ++ [x] ++ us = u at hmatches
  cases hmatches with
  | word spelling =>
    refine Bool.eq_false_iff.1 hwords (begins_of_isSpelling hp ?_)
    rw [← hmatch]
    exact List.prefix_append _ us
  | digits _ hds =>
    exact hlexeme (hds c (by simp [← hmatch])) (.inl (hds x (by simp [← hmatch])))
  | @pointed whole fraction hwhole _ hdigits =>
    obtain ⟨d, ds, rfl⟩ := List.exists_cons_of_ne_nil hwhole
    obtain ⟨rfl, -⟩ := List.cons.inj hmatch
    have hx : x ∈ c :: ds ++ '.' :: fraction := by simp [← hmatch]
    refine hlexeme (hdigits c (by simp)) ?_
    rcases List.mem_append.1 hx with hx | hx
    · exact .inl (hdigits x (List.mem_append_left _ hx))
    · rcases List.mem_cons.1 hx with rfl | hx
      · exact .inr rfl
      · exact .inl (hdigits x (List.mem_append_right _ hx))
  | bracketed =>
    obtain ⟨rfl, -⟩ := List.cons.inj hmatch
    exact hbracket rfl

/-- **A word ends** where text follows that it does not go on with. -/
theorem Leads.followed (h : Leads k w []) (hk : k ≠ .error) (hcs : ∀ x ∈ cs.head?, parts w x) :
    Leads k w cs := by
  cases cs with
  | nil => exact h
  | cons x v =>
    have hextent := extent_append_of_parts (v := v) (hcs x rfl) h.ne_nil
    have hnext := h.next
    rw [List.append_nil] at hnext
    obtain ⟨k', hlongest⟩ := Option.ne_none_iff_exists'.1 fun hnone =>
      hk (by rw [← next_eq_error.2 hnone, hnext])
    refine ⟨?_, h.gapless⟩
    rw [next_of_longest_eq_some ((longest_congr hextent).trans hlongest), hextent, ← hnext,
      next_of_longest_eq_some hlongest]

/-! ## Words of one spelling, and digits -/

/-- A word of one spelling. -/
def Kind.word (k : Kind) : Kind × String :=
  match k.pattern? with
  | some (.word spelling) => (k, spelling)
  | _ => (k, "")

/-- The kind has one spelling. -/
def Kind.isWord (k : Kind) : Bool :=
  match k.pattern? with
  | some (.word _) => true
  | _ => false

/-- A word has one spelling. -/
theorem Kind.exists_spelling (hk : k.isWord) :
    ∃ spelling, k.pattern? = some (.word spelling) ∧ k.word = (k, spelling) := by
  unfold isWord at hk
  unfold word
  split at hk
  · next spelling h => exact ⟨spelling, h, rfl⟩
  · cases hk

theorem Kind.mem_all_of_isWord (hk : k.isWord) : k ∈ all := by
  obtain ⟨spelling, h, -⟩ := exists_spelling hk
  exact mem_all_of_pattern? h

/-- Digits as a word. -/
def digitsWord (ds : Digits) : Kind × String := (.integer, ds.text)

/-- The word is a token when it stands alone. -/
structure Stands (w : Kind × String) : Prop where
  ne_error : w.1 ≠ .error
  leads : Leads w.1 w.2.toList []

/-- A word is the one token of its text. -/
theorem stands_word (hk : k.isWord) : Stands k.word := by
  have hall : Kind.all.all (fun k => !k.isWord || (k.word.1 != .error &&
      next k.word.2.toList == (k.word.1, k.word.2.toList.length) &&
        k.word.2.toList.head?.any isGap == false)) = true := by
    decide +kernel
  have h := List.all_eq_true.1 hall k (Kind.mem_all_of_isWord hk)
  simp only [hk, Bool.not_true, Bool.false_or, Bool.and_eq_true, bne_iff_ne, beq_iff_eq] at h
  exact ⟨h.1.1, by rw [List.append_nil]; exact h.1.2, h.2⟩

/-- So are digits. -/
theorem stands_digits (ds : Digits) : Stands (digitsWord ds) := by
  have hne : ds.text.toList ≠ [] := fun h => ds.ne_empty (String.toList_inj.1 h)
  obtain ⟨c, hc, hdigit⟩ := ds.exists_head
  refine ⟨nofun, ?_, ?_⟩
  · rw [List.append_nil]
    exact next_digits hne ds.isDigit
  · rw [digitsWord, Option.mem_def.1 hc, Option.any_some]
    exact isGap_of_isDigit hdigit

/-! ## Words one after the other -/

/-- The text of words without gaps between them. -/
def spell (ws : List (Kind × String)) : String := String.join (ws.map Prod.snd)

@[simp] theorem spell_nil : spell [] = "" := rfl

@[simp] theorem spell_cons (w : Kind × String) : spell (w :: ws) = w.2 ++ spell ws := by
  simp [spell]

@[simp] theorem spell_append : spell (ws ++ ws') = spell ws ++ spell ws' := by
  simp [spell]

/-- The tokens of words without gaps between them, from a byte on. -/
def adjoin (start : Nat) : List (Kind × String) → List Token
  | [] => []
  | w :: ws => ⟨w.1, start, w.2⟩ :: adjoin (start + w.2.utf8ByteSize) ws

@[simp] theorem length_adjoin : (adjoin start ws).length = ws.length := by
  induction ws generalizing start with
  | nil => rfl
  | cons w ws ih => exact congrArg (· + 1) ih

/-- The first word does not go on into the second one. -/
def Ends (w w' : Kind × String) : Prop := w'.2.toList.head?.all (parts w.2.toList)

instance (w w' : Kind × String) : Decidable (Ends w w') := inferInstanceAs (Decidable (_ = true))

/-- Words of one spelling have no digits and no points in them. -/
theorem not_isDigit_of_mem_word (hk : k.isWord) (hx : x ∈ k.word.2.toList) :
    x.isDigit = false ∧ x ≠ '.' := by
  have hall : Kind.all.all (fun k => !k.isWord ||
      k.word.2.toList.all fun c => !c.isDigit && c != '.') = true := by
    decide +kernel
  have h := List.all_eq_true.1 hall k (Kind.mem_all_of_isWord hk)
  rw [hk, Bool.not_true, Bool.false_or, List.all_eq_true] at h
  simpa using h x hx

/-- No word has a digit in it. -/
theorem begins_eq_false_of_isDigit (hx : x ∈ w) (hdigit : x.isDigit) : begins w = false := by
  refine Bool.eq_false_iff.2 fun h => ?_
  obtain ⟨k, -, hk⟩ := List.any_eq_true.1 h
  split at hk
  · next spelling hspelling =>
    have hword : k.word = (k, spelling) := by rw [Kind.word, hspelling]
    have hisWord : k.isWord := by rw [Kind.isWord, hspelling]
    have hmem := (List.isPrefixOf_iff_prefix.1 hk).subset hx
    have h := not_isDigit_of_mem_word hisWord (by rw [hword]; exact hmem)
    rw [hdigit] at h
    cases h.1
  · cases hk

/-- A word of one spelling ends where digits begin. -/
theorem ends_word_digits (hk : k.isWord) (hbracket : k.word.2.toList.head? ≠ some '[')
    (ds : Digits) : Ends k.word (digitsWord ds) := by
  obtain ⟨x, hx, hdigit⟩ := ds.exists_head
  have hhead : k.word.2.toList.head?.any Char.isDigit = false :=
    Option.any_eq_false _ _ |>.2 fun c hc =>
      (not_isDigit_of_mem_word hk (List.mem_of_mem_head? hc)).1
  have hbegins : begins (k.word.2.toList ++ [x]) = false :=
    begins_eq_false_of_isDigit (by simp) hdigit
  rw [Ends, digitsWord, Option.mem_def.1 hx, Option.all_some, parts, hhead, hbegins]
  simpa using hbracket

/-- Digits end where a word of one spelling begins. -/
theorem ends_digits_word (ds : Digits) (hk : k.isWord) : Ends (digitsWord ds) k.word := by
  obtain ⟨d, hd, hdigit⟩ := ds.exists_head
  refine (Option.all_eq_true _ _).2 fun x hx => ?_
  have hbracket : d ≠ '[' := by
    rintro rfl
    cases hdigit
  have hbegins : begins (ds.text.toList ++ [x]) = false :=
    begins_eq_false_of_isDigit (List.mem_append_left _ (List.mem_of_mem_head? hd)) hdigit
  have h := not_isDigit_of_mem_word hk (List.mem_of_mem_head? hx)
  simp [parts, digitsWord, Option.mem_def.1 hd, hbegins, hbracket, h]

/-- No word goes on into the next one. -/
structure Apart (ws : List (Kind × String)) : Prop where
  stands : ∀ w ∈ ws, Stands w
  chain : ws.IsChain Ends

/-- Words stay apart if the last one before ends where the first one behind begins. -/
theorem Apart.append (h : Apart ws) (h' : Apart ws')
    (hends : ∀ w ∈ ws.getLast?, ∀ w' ∈ ws'.head?, Ends w w') : Apart (ws ++ ws') where
  stands := List.forall_mem_append.2 ⟨h.stands, h'.stands⟩
  chain := List.isChain_append.2 ⟨h.chain, h'.chain, hends⟩

/-- **Words side by side are the tokens of their text.** -/
theorem Apart.tokensAt_eq (h : Apart ws) : tokensAt start (spell ws).toList = adjoin start ws := by
  induction ws generalizing start with
  | nil => rfl
  | cons w ws ih =>
    obtain ⟨hstands, hrest⟩ := List.forall_mem_cons.1 h.stands
    have hleads : Leads w.1 w.2.toList (spell ws).toList := by
      refine hstands.leads.followed hstands.ne_error fun x hx => ?_
      cases ws with
      | nil => cases hx
      | cons w' ws =>
        have hne := (hrest w' List.mem_cons_self).leads.ne_nil
        have hparts := (List.isChain_cons_cons.1 h.chain).1
        rw [spell_cons, String.toList_append, List.head?_append_of_ne_nil _ hne] at hx
        exact (Option.all_eq_true _ _).1 hparts x hx
    rw [spell_cons, String.toList_append, hleads.tokensAt_eq, String.ofList_toList,
      Text.bytes_toList, ih ⟨hrest, h.chain.of_cons⟩]
    rfl

end Token

end DiceNotation
