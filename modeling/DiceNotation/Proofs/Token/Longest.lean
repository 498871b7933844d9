import DiceNotation.Token.Scan
import Mathlib.Data.List.Infix
import Mathlib.Data.List.TakeWhile

/-!
# The longest match

What a pattern takes of a text is the longest piece at its start that the
pattern describes (`Pattern.matches_extent`, `Pattern.le_extent`). So what it
takes does not change when text is cut off behind that piece, nor when text is
added that no match can go on into; and neither does the next token
(`next_of_append`, `next_append`).
-/

namespace DiceNotation

namespace Token

/-! ## Patterns -/

/-- The texts that a pattern describes. -/
inductive Pattern.Matches : Pattern → List Char → Prop where
  | word (spelling : String) : Matches (.word spelling) spelling.toList
  | digits {ds : List Char} (hne : ds ≠ []) (hds : ∀ c ∈ ds, c.isDigit) : Matches .digits ds
  | pointed {whole fraction : List Char} (hwhole : whole ≠ []) (hfraction : fraction ≠ [])
      (hdigits : ∀ c ∈ whole ++ fraction, c.isDigit) :
      Matches .pointed (whole ++ '.' :: fraction)
  | bracketed {inside : List Char} (hne : inside ≠ []) (hinside : ∀ c ∈ inside, isLabelChar c) :
      Matches .bracketed ('[' :: inside ++ [']'])

namespace Pattern

variable {p : Pattern} {u v w cs : List Char}

theorem length_takeWhile_append {q : Char → Bool} {us : List Char} (vs : List Char)
    (hus : ∀ c ∈ us, q c) :
    ((us ++ vs).takeWhile q).length = us.length + (vs.takeWhile q).length := by
  rw [List.takeWhile_append_of_pos hus, List.length_append]

theorem split_takeWhile (q : Char → Bool) (cs : List Char) :
    cs = cs.takeWhile q ++ cs.dropWhile q :=
  List.takeWhile_append_dropWhile.symm

/-- Digits with a point between them are matched as far as they go, or nothing is. -/
theorem matches_pointed (cs : List Char) :
    pointed.extent cs = 0 ∨ ∃ u, u <+: cs ∧ pointed.Matches u ∧ u.length = pointed.extent cs := by
  unfold extent
  dsimp only
  split
  · next rest hrest =>
    split
    · exact .inl rfl
    · next hne =>
      rw [not_or, List.length_eq_zero_iff, List.length_eq_zero_iff] at hne
      have hdrop : cs.dropWhile Char.isDigit = '.' :: rest := by
        rw [← hrest]
        conv_rhs => rw [split_takeWhile Char.isDigit cs]
        rw [List.drop_left' (by rw [← split_takeWhile])]
      refine .inr ⟨cs.takeWhile Char.isDigit ++ '.' :: rest.takeWhile Char.isDigit, ?_,
        .pointed hne.1 hne.2 ?_, by simp; omega⟩
      · conv_rhs => rw [split_takeWhile Char.isDigit cs, hdrop]
        simpa using List.takeWhile_prefix _
      · simp only [List.mem_append]
        rintro c (hc | hc)
        · exact List.mem_takeWhile_imp hc
        · exact List.mem_takeWhile_imp hc
  · exact .inl rfl

/-- A bracketed text is matched up to its bracket, or nothing is. -/
theorem matches_bracketed (cs : List Char) :
    bracketed.extent cs = 0 ∨
      ∃ u, u <+: cs ∧ bracketed.Matches u ∧ u.length = bracketed.extent cs := by
  unfold extent
  dsimp only
  split
  · next rest =>
    split
    · exact .inl rfl
    · next hne =>
      split
      · next hclose =>
        rw [List.length_eq_zero_iff] at hne
        have hdrop : (rest.dropWhile isLabelChar).head? = some ']' := by
          nth_rewrite 1 [split_takeWhile isLabelChar rest] at hclose
          rwa [List.getElem?_append_right (Nat.le_refl _), Nat.sub_self,
            ← List.head?_eq_getElem?] at hclose
        obtain ⟨rest', hrest'⟩ := List.head?_eq_some_iff.1 hdrop
        refine .inr ⟨'[' :: rest.takeWhile isLabelChar ++ [']'], ⟨rest', ?_⟩,
          .bracketed hne fun c hc => List.mem_takeWhile_imp hc, by simp⟩
        conv_rhs => rw [split_takeWhile isLabelChar rest, hrest']
        simp
      · exact .inl rfl
  · exact .inl rfl

/-- What is taken is described. -/
theorem matches_extent (p : Pattern) (cs : List Char) :
    p.extent cs = 0 ∨ ∃ u, u <+: cs ∧ p.Matches u ∧ u.length = p.extent cs := by
  cases p with
  | word spelling =>
    rw [extent]
    split
    · next h => exact .inr ⟨_, List.isPrefixOf_iff_prefix.1 h, .word spelling, rfl⟩
    · exact .inl rfl
  | digits =>
    rw [extent]
    by_cases h : cs.takeWhile Char.isDigit = []
    · exact .inl (by rw [h]; rfl)
    · exact .inr ⟨_, List.takeWhile_prefix _, .digits h fun c hc => List.mem_takeWhile_imp hc, rfl⟩
  | pointed => exact matches_pointed cs
  | bracketed => exact matches_bracketed cs

/-- What is described is taken, or more. -/
theorem le_extent (hu : p.Matches u) (hcs : u <+: cs) : u.length ≤ p.extent cs := by
  have hdot : Char.isDigit '.' = false := by decide
  have hclose : isLabelChar ']' = false := by decide
  obtain ⟨v, rfl⟩ := hcs
  cases hu with
  | word spelling =>
    rw [extent, if_pos (List.isPrefixOf_iff_prefix.2 (List.prefix_append _ v))]
  | digits _ hds =>
    rw [extent, length_takeWhile_append v hds]
    omega
  | @pointed whole fraction hwhole hfraction hdigits =>
    simp only [List.mem_append, or_imp, forall_and] at hdigits
    -- the point ends the first digits, and others follow it
    have hw : (whole ++ '.' :: fraction ++ v).takeWhile Char.isDigit = whole := by
      rw [List.append_assoc, List.takeWhile_append_of_pos hdigits.1]
      simp [hdot]
    have hd : (whole ++ '.' :: fraction ++ v).drop whole.length = '.' :: (fraction ++ v) := by
      simp
    have hf := length_takeWhile_append v hdigits.2
    have hlength := List.length_pos_iff.2 hfraction
    have hlength' := List.length_pos_iff.2 hwhole
    unfold extent
    simp only [hw, hd]
    rw [if_neg (by omega), hf]
    simp
    omega
  | @bracketed inside hne hinside =>
    -- the closing bracket ends what is inside
    have hw : (inside ++ ']' :: v).takeWhile isLabelChar = inside := by
      rw [List.takeWhile_append_of_pos hinside]
      simp [hclose]
    have hlength := List.length_pos_iff.2 hne
    simp only [List.cons_append, List.append_assoc, List.nil_append, extent, hw]
    rw [if_neg (by omega), if_pos (by simp)]
    simp

/-- A piece of a text is taken to the same extent, unless more was taken. -/
theorem extent_of_append (h : p.extent (u ++ v) ≤ u.length) : p.extent (u ++ v) = p.extent u := by
  apply Nat.le_antisymm
  · rcases p.matches_extent (u ++ v) with hzero | ⟨w, hw, hmatches, hlength⟩
    · omega
    · rw [← hlength]
      refine le_extent hmatches ?_
      exact List.prefix_of_prefix_length_le hw (List.prefix_append u v) (by omega)
  · rcases p.matches_extent u with hzero | ⟨w, hw, hmatches, hlength⟩
    · omega
    · rw [← hlength]
      exact le_extent hmatches (hw.trans (List.prefix_append u v))

end Pattern

/-! ## Kinds -/

namespace Kind

variable {k : Kind} {u v cs : List Char}

/-- Of a piece the same is taken, unless more was taken than the piece. -/
theorem extent_of_append (h : k.extent (u ++ v) ≤ u.length) : k.extent (u ++ v) = k.extent u := by
  unfold Kind.extent at h ⊢
  cases hp : k.pattern? with
  | none => rfl
  | some p =>
    rw [hp] at h
    exact Pattern.extent_of_append h

/-- What a kind takes, its pattern describes. -/
theorem exists_matches (h : 0 < k.extent cs) :
    ∃ p u, k.pattern? = some p ∧ u <+: cs ∧ p.Matches u ∧ u.length = k.extent cs := by
  unfold Kind.extent at h ⊢
  cases hp : k.pattern? with
  | none => simp [hp] at h
  | some p =>
    rw [hp] at h
    rcases p.matches_extent cs with hzero | ⟨u, hu⟩
    · exact absurd hzero (Nat.ne_of_gt h)
    · exact ⟨p, u, rfl, hu⟩

theorem extent_le_length (k : Kind) (cs : List Char) : k.extent cs ≤ cs.length := by
  rcases Nat.eq_zero_or_pos (k.extent cs) with hzero | hpos
  · omega
  · obtain ⟨p, u, -, hu, -, hlength⟩ := exists_matches hpos
    rw [← hlength]
    exact hu.length_le

theorem mem_all_of_pattern? {p : Pattern} (h : k.pattern? = some p) : k ∈ all := by
  cases k with
  | error => cases h
  | _ => decide

end Kind

/-! ## The longest of all kinds -/

section Longest

variable {u v cs : List Char} {x : Char}

/-- How much of the text an optional kind takes. -/
def taken (cs : List Char) (best : Option Kind) : Nat := best.elim 0 fun k => k.extent cs

/-- The one of two kinds that takes more, the first if both take as much. -/
def better (cs : List Char) (best : Option Kind) (k : Kind) : Option Kind :=
  if taken cs best < k.extent cs then some k else best

/-- The longest kind is found by going through all of them. -/
theorem longest_eq (cs : List Char) : longest cs = Kind.all.foldl (better cs) none := by
  unfold longest
  congr 1
  funext best k
  cases best with
  | none => rfl
  | some b => rfl

theorem longest_congr {cs cs' : List Char} (h : ∀ k : Kind, k.extent cs = k.extent cs') :
    longest cs = longest cs' := by
  unfold longest
  simp only [h]

/-- The better of two kinds takes as much as either of them. -/
theorem le_taken_better (cs : List Char) (best : Option Kind) (k : Kind) :
    taken cs best ≤ taken cs (better cs best k) ∧ k.extent cs ≤ taken cs (better cs best k) := by
  unfold better
  split
  · next h => exact ⟨Nat.le_of_lt h, Nat.le_refl _⟩
  · next h => exact ⟨Nat.le_refl _, Nat.le_of_not_lt h⟩

/-- The best of all takes as much as each of them. -/
theorem le_taken_foldl (l : List Kind) (best : Option Kind) :
    taken cs best ≤ taken cs (l.foldl (better cs) best) ∧
      ∀ k ∈ l, k.extent cs ≤ taken cs (l.foldl (better cs) best) := by
  induction l generalizing best with
  | nil => simp
  | cons k l ih =>
    obtain ⟨hbest, hk⟩ := le_taken_better cs best k
    obtain ⟨hle, hall⟩ := ih (better cs best k)
    refine ⟨hbest.trans hle, ?_⟩
    simpa using ⟨hk.trans hle, hall⟩

/-- No kind takes more than the longest one. -/
theorem extent_le_taken (k : Kind) (cs : List Char) : k.extent cs ≤ taken cs (longest cs) := by
  rw [longest_eq]
  cases hk : k.extent cs with
  | zero => exact Nat.zero_le _
  | succ n =>
    have hpos : 0 < k.extent cs := by omega
    obtain ⟨p, -, hp, -⟩ := Kind.exists_matches hpos
    rw [← hk]
    exact (le_taken_foldl Kind.all none).2 k (Kind.mem_all_of_pattern? hp)

/-- A kind that is chosen takes something. -/
theorem extent_pos_of_foldl (l : List Kind) {best : Option Kind}
    (hbest : ∀ k ∈ best, 0 < k.extent cs) : ∀ k ∈ l.foldl (better cs) best, 0 < k.extent cs := by
  induction l generalizing best with
  | nil => exact hbest
  | cons k l ih =>
    refine ih fun k' hk' => ?_
    unfold better at hk'
    split at hk'
    · next h =>
      cases hk'
      omega
    · exact hbest k' hk'

theorem extent_pos {k : Kind} (h : longest cs = some k) : 0 < k.extent cs := by
  rw [longest_eq] at h
  exact extent_pos_of_foldl Kind.all (by simp) k h

theorem longest_eq_none : longest cs = none ↔ ∀ k : Kind, k.extent cs = 0 := by
  constructor
  · intro h k
    have hk := extent_le_taken k cs
    rw [h] at hk
    exact Nat.le_zero.1 hk
  · intro h
    rw [Option.eq_none_iff_forall_ne_some]
    intro k hk
    have hpos := extent_pos hk
    rw [h k] at hpos
    exact Nat.lt_irrefl 0 hpos

/-! ## The next token -/

/-- The next token is what the longest kind takes. -/
theorem next_of_longest_eq_some {k : Kind} (h : longest cs = some k) :
    next cs = (k, k.extent cs) := by
  rw [next, h]

/-- If no kind takes anything, the next token is unknown. -/
theorem next_of_longest_eq_none (h : longest cs = none) : next cs = (.error, errorExtent cs) := by
  rw [next, h]

theorem next_eq_error : (next cs).1 = .error ↔ longest cs = none := by
  cases h : longest cs with
  | none => simp [next_of_longest_eq_none h]
  | some k =>
    rw [next_of_longest_eq_some h]
    have hpos := extent_pos h
    constructor
    · rintro rfl
      exact absurd hpos (Nat.lt_irrefl 0)
    · exact nofun

/-- Some character is always taken. -/
theorem next_pos (cs : List Char) : 0 < (next cs).2 := by
  cases h : longest cs with
  | none =>
    rw [next_of_longest_eq_none h]
    unfold errorExtent
    split
    · omega
    · exact Nat.one_pos
  | some k =>
    rw [next_of_longest_eq_some h]
    exact extent_pos h

/-- No more is taken than there is. -/
theorem next_le (hcs : cs ≠ []) : (next cs).2 ≤ cs.length := by
  cases h : longest cs with
  | none =>
    rw [next_of_longest_eq_none h]
    unfold errorExtent
    split
    · next rest =>
      have hle := (List.takeWhile_prefix (l := rest) isLabelChar).length_le
      simp
      omega
    · exact List.length_pos_iff.2 hcs
  | some k =>
    rw [next_of_longest_eq_some h]
    exact k.extent_le_length cs

/-- An unknown token is as long without what stands behind a piece, unless it goes on there.
-/
theorem errorExtent_of_append (hu : u ≠ []) (h : errorExtent (u ++ v) ≤ u.length) :
    errorExtent (u ++ v) = errorExtent u := by
  cases u with
  | nil => exact absurd rfl hu
  | cons c u =>
    rw [List.cons_append] at h ⊢
    by_cases hc : c = '['
    · subst hc
      simp only [errorExtent, List.length_cons, List.takeWhile_append] at h ⊢
      split
      · next hall =>
        rw [if_pos hall, List.length_append] at h
        rw [List.length_append]
        omega
      · rfl
    · rw [errorExtent, errorExtent]
      · exact fun _ h => hc (List.cons.inj h).1
      · exact fun _ h => hc (List.cons.inj h).1

/-- **A token is the same when the text is cut off behind it.** -/
theorem next_of_append (hu : u ≠ []) (h : (next (u ++ v)).2 ≤ u.length) :
    next (u ++ v) = next u := by
  have hextent (k : Kind) : k.extent (u ++ v) = k.extent u := by
    refine Kind.extent_of_append (Nat.le_trans ?_ h)
    have hle := extent_le_taken k (u ++ v)
    cases hl : longest (u ++ v) with
    | none =>
      rw [hl] at hle
      exact hle.trans (Nat.zero_le _)
    | some k' =>
      rw [hl] at hle
      rwa [next_of_longest_eq_some hl]
  have hlongest := longest_congr hextent
  cases hl : longest u with
  | none =>
    rw [hl] at hlongest
    rw [next_of_longest_eq_none hlongest] at h ⊢
    rw [next_of_longest_eq_none hl, errorExtent_of_append hu h]
  | some k =>
    rw [next_of_longest_eq_some hl, next_of_longest_eq_some (hlongest.trans hl), hextent]

/-! ## Going on behind a token -/

/-- The character stands in no match behind the first place, except in a label. -/
def breaks (x : Char) : Bool :=
  !x.isDigit && x != '.' && Kind.all.all fun k =>
    match k.pattern? with
    | some (.word spelling) => !spelling.toList.tail.contains x
    | _ => true

/-- A breaking character stands in no match behind its first place, except in a label. -/
theorem eq_bracketed_of_mem_tail {k : Kind} {p : Pattern} (hx : breaks x) (hp : k.pattern? = some p)
    (hu : p.Matches u) (hmem : x ∈ u.tail) : p = .bracketed := by
  simp only [breaks, Bool.and_eq_true, List.all_eq_true, bne_iff_ne, Bool.not_eq_true'] at hx
  obtain ⟨⟨hdigit, hdot⟩, hwords⟩ := hx
  have hk := hwords k (Kind.mem_all_of_pattern? hp)
  rw [hp] at hk
  cases hu with
  | word spelling => simp [hmem] at hk
  | digits _ hds =>
    rw [hds x (List.mem_of_mem_tail hmem)] at hdigit
    cases hdigit
  | pointed hwhole _ hdigits =>
    have hx := List.mem_of_mem_tail hmem
    have := hdigits x (by grind)
    rw [this] at hdigit
    cases hdigit
  | bracketed => rfl

/-- The words that begin with a bracket have another one. -/
theorem mem_tail_of_bracket {k : Kind} {spelling : String} {us : List Char}
    (hk : k.pattern? = some (.word spelling)) (hspelling : spelling.toList = '[' :: us) :
    '[' ∈ us := by
  have hwords : Kind.all.all (fun k => match k.pattern? with
      | some (.word spelling) =>
        spelling.toList.head? != some '[' || spelling.toList.tail.contains '['
      | _ => true) = true := by
    decide
  have h := List.all_eq_true.1 hwords k (Kind.mem_all_of_pattern? hk)
  simpa [hk, hspelling] using h

/-- A bracket that is not closed is no token. -/
theorem longest_unclosed {us : List Char} (hus : ∀ c ∈ us, isLabelChar c) :
    longest ('[' :: us) = none := by
  have hopen : '[' ∉ us := fun h => absurd (hus _ h) (by decide)
  have hclose : ']' ∉ us := fun h => absurd (hus _ h) (by decide)
  rw [longest_eq_none]
  intro k
  by_contra hk
  obtain ⟨p, u, hp, hu, hmatches, hlength⟩ := Kind.exists_matches (Nat.pos_of_ne_zero hk)
  obtain ⟨c, u, rfl⟩ := List.exists_cons_of_length_pos (hlength ▸ Nat.pos_of_ne_zero hk)
  obtain ⟨rfl, hus⟩ := List.cons_prefix_cons.1 hu
  generalize hw : '[' :: u = w at hmatches
  -- the words that begin so have a second bracket, and a label is closed
  cases hmatches with
  | word spelling => exact hopen (hus.subset (mem_tail_of_bracket hp hw.symm))
  | digits _ hds => exact absurd (hds '[' (by rw [← hw]; simp)) (by decide)
  | @pointed whole fraction hwhole _ hdigits =>
    obtain ⟨d, whole, rfl⟩ := List.exists_cons_of_ne_nil hwhole
    obtain ⟨rfl, -⟩ := List.cons.inj hw
    exact absurd (hdigits '[' (by simp)) (by decide)
  | bracketed =>
    obtain ⟨-, rfl⟩ := List.cons.inj hw
    exact hclose (hus.subset (List.mem_append_right _ List.mem_cons_self))

/-- A breaking character behind a match is not taken with it. -/
theorem extent_append (hx : breaks x) (hu : longest u ≠ none) (k : Kind) :
    k.extent (u ++ x :: v) = k.extent u := by
  refine Kind.extent_of_append (Nat.le_of_not_lt fun hlt => hu ?_)
  have hpos : 0 < k.extent (u ++ x :: v) := by omega
  obtain ⟨p, w, hp, hw, hmatches, hlength⟩ := Kind.exists_matches hpos
  -- the match goes on into what was added, so it is a label, and the text before is unclosed
  have hux : u ++ [x] <+: w := by
    refine List.prefix_of_prefix_length_le ⟨v, by simp⟩ hw ?_
    simp
    omega
  cases u with
  | nil => exact longest_eq_none.2 fun k => Nat.le_zero.1 (k.extent_le_length [])
  | cons c u =>
    have hmem : x ∈ w.tail := by
      obtain ⟨w', rfl⟩ := hux
      simp
    obtain rfl := eq_bracketed_of_mem_tail hx hp hmatches hmem
    cases hmatches with
    | @bracketed inside _ hinside =>
      obtain ⟨rfl, hinner⟩ := List.cons_prefix_cons.1 hux
      have hlabel : u <+: inside := by
        refine List.prefix_of_prefix_length_le ((List.prefix_append u [x]).trans hinner)
          (List.prefix_append inside [']']) ?_
        have hle := hinner.length_le
        simpa using hle
      exact longest_unclosed fun c hc => hinside c (hlabel.subset hc)

/-- **A token is the same when text is added that it cannot go on with.** -/
theorem next_append (hx : breaks x) (hu : (next u).1 ≠ .error) : next (u ++ x :: v) = next u := by
  rw [ne_eq, next_eq_error] at hu
  have hextent := extent_append (v := v) hx hu
  obtain ⟨k, hk⟩ := Option.ne_none_iff_exists'.1 hu
  rw [next_of_longest_eq_some hk, next_of_longest_eq_some ((longest_congr hextent).trans hk),
    hextent]

end Longest

end Token

end DiceNotation
