import DiceNotation.Proofs.Token.Longest

/-!
# The tokens of texts put together

A text is gaps and tokens from its start on (`Token.text_induction`), so its
tokens can be followed along it. Cut at the start of a token, the text before
has the tokens before (`Token.exists_cut`). With more text behind it, which no
token can go on with, it keeps the tokens that it has (`Token.tokensAt_append`).
-/

namespace DiceNotation

/-- The number of bytes of some characters. -/
def Text.bytes (cs : List Char) : Nat := (String.ofList cs).utf8ByteSize

namespace Text

@[simp] theorem bytes_nil : bytes [] = 0 := rfl

theorem bytes_cons (c : Char) (cs : List Char) : bytes (c :: cs) = c.utf8Size + bytes cs := by
  rw [bytes, String.ofList_cons, String.utf8ByteSize_append, String.utf8ByteSize_singleton, bytes]

theorem bytes_append (us vs : List Char) : bytes (us ++ vs) = bytes us + bytes vs := by
  rw [bytes, String.ofList_append, String.utf8ByteSize_append, bytes, bytes]

theorem bytes_toList (s : String) : bytes s.toList = s.utf8ByteSize := by
  rw [bytes, String.ofList_toList]

theorem bytes_pos {cs : List Char} (h : cs ≠ []) : 0 < bytes cs := by
  obtain ⟨c, cs, rfl⟩ := List.exists_cons_of_ne_nil h
  have hc := c.utf8Size_pos
  rw [bytes_cons]
  omega

end Text

namespace Token

open Text (bytes bytes_cons bytes_append)

variable {k : Kind} {start : Nat} {w u v cs : List Char} {x : Char}

/-! ## Along a text -/

/-- The tokens of a text that starts at a byte. -/
def tokensAt (start : Nat) (cs : List Char) : List Token := scan cs.length start cs

theorem tokenize_eq (s : String) : tokenize s = tokensAt 0 s.toList := rfl

/-- As many steps as there are characters are enough. -/
theorem scan_congr {steps steps' : Nat} (h : cs.length ≤ steps) (h' : cs.length ≤ steps') :
    scan steps start cs = scan steps' start cs := by
  induction steps generalizing steps' start cs with
  | zero =>
    obtain rfl := List.eq_nil_of_length_eq_zero (Nat.le_zero.1 h)
    cases steps' with
    | zero => rfl
    | succ steps' => rfl
  | succ steps ih =>
    cases cs with
    | nil =>
      cases steps' with
      | zero => rfl
      | succ steps' => rfl
    | cons c cs =>
      cases steps' with
      | zero => cases h'
      | succ steps' =>
        rw [List.length_cons] at h h'
        -- a gap or a token is taken, so there are fewer characters left than before
        have hpos := next_pos (c :: cs)
        have hdrop : ((c :: cs).drop (next (c :: cs)).2).length ≤ cs.length := by
          rw [List.length_drop, List.length_cons]
          omega
        have hsteps : cs.length ≤ steps := by omega
        have hsteps' : cs.length ≤ steps' := by omega
        rw [scan, scan, ih hsteps hsteps']
        dsimp only
        rw [ih (hdrop.trans hsteps) (hdrop.trans hsteps')]

@[simp] theorem tokensAt_nil : tokensAt start [] = [] := rfl

theorem tokensAt_gap (hx : isGap x) :
    tokensAt start (x :: cs) = tokensAt (start + x.utf8Size) cs := by
  rw [tokensAt, List.length_cons, scan, if_pos hx, tokensAt]

/-- The text `w` is the first token where `cs` stands behind it. -/
structure Leads (k : Kind) (w cs : List Char) : Prop where
  next : Token.next (w ++ cs) = (k, w.length)
  gapless : w.head?.any isGap = false

namespace Leads

theorem ne_nil (h : Leads k w cs) : w ≠ [] := by
  have hpos := next_pos (w ++ cs)
  rw [h.next] at hpos
  exact List.length_pos_iff.1 hpos

/-- What leads a text is its first token. -/
theorem tokensAt_eq (h : Leads k w cs) :
    tokensAt start (w ++ cs) = ⟨k, start, String.ofList w⟩ :: tokensAt (start + bytes w) cs := by
  have hnext := h.next
  obtain ⟨c, w', rfl⟩ := List.exists_cons_of_ne_nil h.ne_nil
  rw [tokensAt, List.cons_append, List.length_cons, scan, if_neg (by simpa using h.gapless)]
  rw [List.cons_append] at hnext
  dsimp only
  rw [hnext]
  dsimp only
  rw [← List.cons_append, List.take_left' rfl, List.drop_left' rfl,
    scan_congr (by simp) (Nat.le_refl cs.length)]
  rfl

/-- It leads what is left of the text when the end is cut off. -/
theorem cut (h : Leads k w (u ++ v)) : Leads k w u where
  next := by
    rw [← h.next, ← List.append_assoc]
    refine (next_of_append (by simp [h.ne_nil]) ?_).symm
    rw [List.append_assoc, h.next]
    simp
  gapless := h.gapless

/-- A known token leads longer texts too, if it cannot go on. -/
theorem extend (h : Leads k w u) (hk : k ≠ .error) (hx : breaks x) : Leads k w (u ++ x :: v) where
  next := by
    rw [← List.append_assoc, next_append hx, h.next]
    rwa [h.next]
  gapless := h.gapless

end Leads

/-- A text ends, or goes on with a gap, or with a token. -/
theorem text_induction {motive : List Char → Prop} (nil : motive [])
    (gap : ∀ c cs, isGap c → motive cs → motive (c :: cs))
    (token : ∀ k w cs, Leads k w cs → motive cs → motive (w ++ cs)) (cs : List Char) :
    motive cs := by
  induction hn : cs.length using Nat.strong_induction_on generalizing cs with
  | h n ih =>
    subst hn
    cases cs with
    | nil => exact nil
    | cons c cs =>
      by_cases hc : isGap c
      · exact gap c cs hc (ih cs.length (by simp) cs rfl)
      · have hpos := next_pos (c :: cs)
        have hle := next_le (List.cons_ne_nil c cs)
        rw [← List.take_append_drop (next (c :: cs)).2 (c :: cs)]
        refine token (next (c :: cs)).1 _ _ ⟨?_, ?_⟩ (ih _ ?_ _ rfl)
        · rw [List.take_append_drop, List.length_take, Nat.min_eq_left hle]
        · rw [List.head?_take, if_neg (Nat.ne_of_gt hpos)]
          simpa using hc
        · rw [List.length_drop, List.length_cons]
          omega

/-! ## Cutting and adding -/

/-- **Cut at a token, the text before it has the tokens before it.** -/
theorem exists_cut {ts us : List Token} {t : Token} (h : tokensAt start cs = ts ++ t :: us) :
    ∃ u v, cs = u ++ v ∧ start + bytes u = t.start ∧ tokensAt start u = ts ∧
      tokensAt t.start v = t :: us := by
  induction cs using text_induction generalizing start ts with
  | nil => simp at h
  | gap c cs hc ih =>
    rw [tokensAt_gap hc] at h
    obtain ⟨u, v, rfl, hstart, hu, hv⟩ := ih h
    refine ⟨c :: u, v, rfl, ?_, ?_, hv⟩
    · rw [bytes_cons, ← Nat.add_assoc, hstart]
    · rw [tokensAt_gap hc, hu]
  | token k w cs hw ih =>
    have htokens : tokensAt start (w ++ cs) = _ := hw.tokensAt_eq
    rw [htokens] at h
    cases ts with
    | nil =>
      obtain ⟨rfl, -⟩ := List.cons.inj h
      exact ⟨[], w ++ cs, rfl, rfl, rfl, htokens.trans h⟩
    | cons t' ts =>
      rw [List.cons_append] at h
      obtain ⟨rfl, hrest⟩ := List.cons.inj h
      obtain ⟨u, v, rfl, hstart, hu, hv⟩ := ih hrest
      refine ⟨w ++ u, v, (List.append_assoc w u v).symm, ?_, ?_, hv⟩
      · rw [bytes_append, ← Nat.add_assoc, hstart]
      · rw [hw.cut.tokensAt_eq, hu]

/-- **Text that no token can go on with adds its own tokens.** -/
theorem tokensAt_append (h : ∀ t ∈ tokensAt start u, t.kind ≠ .error) (hx : breaks x) :
    tokensAt start (u ++ x :: v) = tokensAt start u ++ tokensAt (start + bytes u) (x :: v) := by
  induction u using text_induction generalizing start with
  | nil => rfl
  | gap c u hc ih =>
    rw [tokensAt_gap hc] at h
    rw [List.cons_append, tokensAt_gap hc, tokensAt_gap hc, ih h, bytes_cons, Nat.add_assoc]
  | token k w u hw ih =>
    rw [hw.tokensAt_eq, List.forall_mem_cons] at h
    rw [List.append_assoc, (hw.extend h.1 hx).tokensAt_eq, hw.tokensAt_eq, ih h.2, bytes_append,
      Nat.add_assoc, List.cons_append]

/-- Gaps leave no tokens. -/
theorem tokensAt_gaps {gaps : List Char} (h : ∀ c ∈ gaps, isGap c) :
    tokensAt start (gaps ++ cs) = tokensAt (start + bytes gaps) cs := by
  induction gaps generalizing start with
  | nil => rfl
  | cons c gaps ih =>
    rw [List.forall_mem_cons] at h
    rw [List.cons_append, tokensAt_gap h.1, ih h.2, bytes_cons, Nat.add_assoc]

/-- A gap breaks off every token but a label. -/
theorem breaks_of_isGap (h : isGap x) : breaks x := by
  simp only [isGap, Bool.or_eq_true, beq_iff_eq] at h
  rcases h with ((rfl | rfl) | rfl) | rfl <;> decide

/-! ## Where tokens stand -/

/-- The token so many bytes further on. -/
def shift (n : Nat) (t : Token) : Token := { t with start := t.start + n }

/-- In another place the tokens are the same, moved. -/
theorem tokensAt_add (n : Nat) : tokensAt (start + n) cs = (tokensAt start cs).map (shift n) := by
  induction cs using text_induction generalizing start with
  | nil => rfl
  | gap c cs hc ih =>
    rw [tokensAt_gap hc, tokensAt_gap hc, ← ih, Nat.add_right_comm]
  | token k w cs hw ih =>
    rw [hw.tokensAt_eq, hw.tokensAt_eq, List.map_cons, ← ih, Nat.add_right_comm]
    rfl

/-- Tokens end in their text. -/
theorem stop_le {t : Token} (ht : t ∈ tokensAt start cs) : t.stop ≤ start + bytes cs := by
  induction cs using text_induction generalizing start with
  | nil => cases ht
  | gap c cs hc ih =>
    rw [tokensAt_gap hc] at ht
    rw [bytes_cons, ← Nat.add_assoc]
    exact ih ht
  | token k w cs hw ih =>
    rw [hw.tokensAt_eq] at ht
    rw [bytes_append, ← Nat.add_assoc]
    cases ht with
    | head => exact Nat.le_add_right _ _
    | tail _ ht => exact ih ht

end Token

end DiceNotation
