import DiceNotation.Proofs.Token.Tokens

/-!
# Tokens tile the text

The tokens of a text follow each other without overlap, each of them is the
piece of the text that it stands on, and what lies between them is gaps
(`tokenize_tiles`). At its start a token is the longest piece that the pattern
of any kind describes; an error stands where there is no such piece.
-/

namespace DiceNotation

namespace Token

open Text (bytes bytes_cons bytes_append)

variable {k : Kind} {start : Nat} {u w cs : List Char} {c : Char} {t : Token}

/-! ## The longest piece -/

/-- The pattern of the kind describes the text. -/
def Kind.Describes (k : Kind) (u : List Char) : Prop := ∃ p, k.pattern? = some p ∧ p.Matches u

/-- The kind describes `w`, and no kind describes a longer piece at the start of
the text. -/
structure Kind.TakesMost (k : Kind) (w cs : List Char) : Prop where
  describes : k.Describes w
  most : ∀ k' u, u <+: cs → Kind.Describes k' u → u.length ≤ w.length

/-- A description of a piece at the beginning is no longer than what is taken. -/
theorem Kind.Describes.le_extent (h : k.Describes u) (hu : u <+: cs) : u.length ≤ k.extent cs := by
  obtain ⟨p, hp, hmatches⟩ := h
  rw [Kind.extent, hp]
  exact Pattern.le_extent hmatches hu

theorem Kind.spelling_ne_empty {spelling : String} (hk : k.pattern? = some (.word spelling)) :
    spelling.toList ≠ [] := by
  cases k <;> cases hk <;> decide

/-- No kind describes the empty text. -/
theorem Kind.Describes.ne_nil (h : k.Describes u) : u ≠ [] := by
  obtain ⟨p, hp, hmatches⟩ := h
  cases hmatches with
  | word spelling => exact Kind.spelling_ne_empty hp
  | digits hne => exact hne
  | pointed | bracketed => simp

/-- A token that is no error is the longest piece. -/
theorem Leads.takesMost (h : Leads k w cs) (hk : k ≠ .error) : k.TakesMost w (w ++ cs) := by
  have hnext := h.next
  cases hlongest : longest (w ++ cs) with
  | none =>
    rw [next_of_longest_eq_none hlongest] at hnext
    exact absurd (Prod.mk.inj hnext).1.symm hk
  | some k' =>
    rw [next_of_longest_eq_some hlongest] at hnext
    obtain ⟨rfl, hextent⟩ := Prod.mk.inj hnext
    obtain ⟨p, u, hp, hu, hmatches, hlength⟩ := Kind.exists_matches (extent_pos hlongest)
    have hlength : u.length = w.length := hlength.trans hextent
    obtain rfl : u = w :=
      (List.prefix_of_prefix_length_le hu (List.prefix_append w cs) hlength.le).eq_of_length hlength
    refine ⟨⟨p, hp, hmatches⟩, fun k v hv hdescribes => ?_⟩
    have hle := extent_le_taken k (u ++ cs)
    rw [hlongest, taken, Option.elim_some, hextent] at hle
    exact (hdescribes.le_extent hv).trans hle

/-- An error stands where no kind describes anything. -/
theorem Leads.not_describes (h : Leads .error w cs) (k : Kind) (hu : u <+: w ++ cs) :
    ¬k.Describes u := by
  intro hdescribes
  have hlongest : longest (w ++ cs) = none := next_eq_error.1 (by rw [h.next])
  have hle := hdescribes.le_extent hu
  rw [longest_eq_none.1 hlongest k] at hle
  exact hdescribes.ne_nil (List.eq_nil_of_length_eq_zero (Nat.le_zero.1 hle))

/-! ## Where tokens stand -/

/-- A token is a piece of the text, and the first one where it stands. -/
theorem exists_leads (h : t ∈ tokensAt start cs) :
    ∃ before after, cs = before ++ t.text.toList ++ after ∧ start + bytes before = t.start ∧
      Leads t.kind t.text.toList after := by
  induction cs using text_induction generalizing start with
  | nil => cases h
  | gap c cs hc ih =>
    rw [tokensAt_gap hc] at h
    obtain ⟨before, after, rfl, hstart, hleads⟩ := ih h
    refine ⟨c :: before, after, rfl, ?_, hleads⟩
    rw [bytes_cons, ← Nat.add_assoc, hstart]
  | token k w cs hw ih =>
    rw [hw.tokensAt_eq, List.mem_cons] at h
    rcases h with rfl | h
    · rw [String.toList_ofList]
      exact ⟨[], cs, rfl, rfl, hw⟩
    · obtain ⟨before, after, rfl, hstart, hleads⟩ := ih h
      refine ⟨w ++ before, after, by simp, ?_, hleads⟩
      rw [bytes_append, ← Nat.add_assoc, hstart]

theorem le_start (h : t ∈ tokensAt start cs) : start ≤ t.start := by
  obtain ⟨before, -, -, hstart, -⟩ := exists_leads h
  exact hstart ▸ Nat.le_add_right start _

/-- Tokens follow each other without overlap. -/
theorem pairwise_tokensAt : (tokensAt start cs).Pairwise fun t u => t.stop ≤ u.start := by
  induction cs using text_induction generalizing start with
  | nil => exact .nil
  | gap c cs hc ih =>
    rw [tokensAt_gap hc]
    exact ih
  | token k w cs hw ih =>
    rw [hw.tokensAt_eq]
    exact .cons (fun u hu => le_start hu) ih

/-- The token stands on the byte. -/
def Covers (t : Token) (n : Nat) : Prop := t.start ≤ n ∧ n < t.stop

/-- What no token stands on is a gap. -/
theorem isGap_of_not_covered (start : Nat) (before after : List Char)
    (hcs : cs = before ++ c :: after)
    (h : ∀ t ∈ tokensAt start cs, ¬t.Covers (start + bytes before)) : isGap c := by
  induction cs using text_induction generalizing start before with
  | nil => simp at hcs
  | gap g cs hg ih =>
    rw [tokensAt_gap hg] at h
    cases before with
    | nil =>
      obtain ⟨rfl, -⟩ := List.cons.inj hcs
      exact hg
    | cons b before =>
      obtain ⟨rfl, hrest⟩ := List.cons.inj hcs
      rw [bytes_cons, ← Nat.add_assoc] at h
      exact ih _ before hrest h
  | token k w cs hw ih =>
    rw [hw.tokensAt_eq, List.forall_mem_cons] at h
    obtain ⟨hhead, htail⟩ := h
    -- the character stands behind the token, right behind it, or in it
    rcases List.append_eq_append_iff.1 hcs with ⟨rest, rfl, hrest⟩ | ⟨rest, rfl, hrest⟩
    · rw [bytes_append, ← Nat.add_assoc] at htail
      exact ih _ rest hrest htail
    · cases rest with
      | nil =>
        rw [List.append_nil] at htail
        exact ih _ [] hrest.symm htail
      | cons d rest =>
        have hd := d.utf8Size_pos
        refine absurd ⟨Nat.le_add_right _ _, ?_⟩ hhead
        change start + bytes before < start + bytes (before ++ d :: rest)
        rw [bytes_append, bytes_cons]
        omega

/-! ## Between tokens -/

/-- In front of the first token are gaps. -/
theorem exists_first {us : List Token} (h : tokensAt start cs = t :: us) :
    ∃ gaps after, cs = gaps ++ t.text.toList ++ after ∧ start + bytes gaps = t.start ∧
      (∀ c ∈ gaps, isGap c) ∧ tokensAt t.stop after = us := by
  induction cs using text_induction generalizing start with
  | nil => cases h
  | gap c cs hc ih =>
    rw [tokensAt_gap hc] at h
    obtain ⟨gaps, after, rfl, hstart, hgaps, hafter⟩ := ih h
    refine ⟨c :: gaps, after, rfl, ?_, List.forall_mem_cons.2 ⟨hc, hgaps⟩, hafter⟩
    rw [bytes_cons, ← Nat.add_assoc, hstart]
  | token k w cs hw ih =>
    rw [hw.tokensAt_eq] at h
    obtain ⟨rfl, rfl⟩ := List.cons.inj h
    exact ⟨[], cs, by rw [String.toList_ofList]; rfl, rfl, nofun, rfl⟩

/-- Between a token and the next one are gaps. -/
theorem exists_between {ts us : List Token} {t' : Token}
    (h : tokensAt start cs = ts ++ t :: t' :: us) :
    ∃ before gaps after, cs = before ++ t.text.toList ++ gaps ++ t'.text.toList ++ after ∧
      start + bytes before = t.start ∧ t.stop + bytes gaps = t'.start ∧
      ∀ c ∈ gaps, isGap c := by
  obtain ⟨before, v, rfl, hbefore, -, hv⟩ := exists_cut h
  obtain ⟨none, v, rfl, hnone, -, htail⟩ := exists_first hv
  obtain rfl : none = [] := by
    by_contra hne
    have := Text.bytes_pos hne
    omega
  obtain ⟨gaps, after, rfl, hgaps, hisGap, -⟩ := exists_first htail
  exact ⟨before, gaps, after, by simp, hbefore, hgaps, hisGap⟩

end Token

/-- **Tokens tile the text.** They stand in it in their order and do not overlap.
Each is the piece of the text between its two bytes, which is not empty and does
not begin with a gap; it is the longest piece there that any kind describes and
its own kind does, or an error if no kind describes any. All the rest of the
text is spaces, tabs and line ends. -/
theorem tokenize_tiles (s : String) :
    (tokenize s).Pairwise (fun t u => t.stop ≤ u.start) ∧
    (∀ t ∈ tokenize s, ∃ before after, s.toList = before ++ t.text.toList ++ after ∧
      Text.bytes before = t.start ∧ t.start < t.stop ∧ t.stop ≤ s.utf8ByteSize ∧
      (∀ c ∈ t.text.toList.head?, c ∉ [' ', '\t', '\r', '\n']) ∧
      (t.kind ≠ .error → t.kind.TakesMost t.text.toList (t.text.toList ++ after)) ∧
      (t.kind = .error → ∀ k u, u <+: t.text.toList ++ after → ¬Token.Kind.Describes k u)) ∧
    ∀ before c after, s.toList = before ++ c :: after →
      (∀ t ∈ tokenize s, ¬t.Covers (Text.bytes before)) → c ∈ [' ', '\t', '\r', '\n'] := by
  have hgap (c : Char) : Token.isGap c ↔ c ∈ [' ', '\t', '\r', '\n'] := by
    simp [Token.isGap, or_assoc]
  rw [Token.tokenize_eq]
  refine ⟨Token.pairwise_tokensAt, fun t ht => ?_, fun before c after hs h => ?_⟩
  · obtain ⟨before, after, hs, hstart, hleads⟩ := Token.exists_leads ht
    have hpos : 0 < t.text.utf8ByteSize := Text.bytes_toList t.text ▸ Text.bytes_pos hleads.ne_nil
    have hstop := Token.stop_le ht
    rw [Nat.zero_add, Text.bytes_toList] at hstop
    refine ⟨before, after, hs, (Nat.zero_add _).symm.trans hstart, Nat.lt_add_of_pos_right hpos,
      hstop, fun c hc => ?_, hleads.takesMost, fun hk k u hu => ?_⟩
    · have hgapless := hleads.gapless
      rw [Option.mem_def.1 hc, Option.any_some] at hgapless
      rw [← hgap, hgapless]
      exact Bool.false_ne_true
    · rw [hk] at hleads
      exact hleads.not_describes k hu
  · refine (hgap c).1 (Token.isGap_of_not_covered 0 before after hs ?_)
    rwa [Nat.zero_add]

example : (tokenize "!! 12.5").map Token.kind = [.compound, .decimal] := by decide +kernel

end DiceNotation
