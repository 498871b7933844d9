import DiceNotation.Proofs.Grammar.Expressions

/-!
# Reading is local

What is read depends on the tokens taken, on which of them touch, and on nothing behind
them: two readings do the same as far as the tokens agree, up to a seam (`Seam.tracking`).
Behind it the first reading may have tokens that the second one lacks, or the second one an
operator that the first one lacks; either way, who takes no token behind the seam in the
first reading takes none in the second.

The operator is a minus. It is declined inside of an expression, but where an operand may
be missing it would be taken for the sign of one; so nothing behind the seam may touch a
token that an operand may follow or not (`Seam.Guarded`).

In brackets a parser goes on with the parser of the next depth. Both readings need depth
enough for what they have to read, and no more is asked of it (`Parser.tracks_expression`).
-/

namespace DiceNotation

open Cursor (place)

/-! ## The seam -/

/-- The rests of two token lists that agree before them: either the second list
ends here, or the first one does and the second goes on with a minus. -/
structure Seam where
  first : List Token
  second : List Token
  /-- What the second list goes on with does not touch what is before it. -/
  loose : Prop
  ends : second = [] ∨ first = [] ∧ second.head?.map Token.kind = some .minus

namespace Seam

/-- The two readings see the same from here on, up to the seam. -/
inductive Along (S : Seam) : Cursor → Cursor → Prop where
  | seam {c c' : Cursor} (hc : c.rest = S.first) (hc' : c'.rest = S.second)
      (hloose : S.loose → c'.sight.bind Sight.touching = none) : Along S c c'
  | token {c c' : Cursor} (hc : c.rest ≠ []) (hsight : c.sight = c'.sight)
      (h : Along S c.advance c'.advance) : Along S c c'

variable {S : Seam} {c c' d : Cursor} {n : Nat}

/-- The readings are as far from the seam as each other. -/
theorem Along.length_eq (h : S.Along c c') :
    c.rest.length + S.second.length = c'.rest.length + S.first.length := by
  induction h with
  | seam hc hc' => simp [hc, hc', Nat.add_comm]
  | @token c c' hc hsight h ih =>
    have hc' : c'.rest ≠ [] := by
      rwa [ne_eq, ← Cursor.sight_eq_none, ← hsight, Cursor.sight_eq_none]
    have hadvance (c : Cursor) (hc : c.rest ≠ []) : c.rest.length = c.advance.rest.length + 1 := by
      obtain ⟨previous, rest, finish⟩ := c
      cases rest with
      | nil => exact absurd rfl hc
      | cons t ts => rfl
    rw [hadvance c hc, hadvance c' hc']
    omega

/-- Before the seam the two readings see the same. -/
theorem Along.before (h : S.Along c c') (hc : S.first.length < c.rest.length) :
    c.sight = c'.sight ∧ S.Along c.advance c'.advance := by
  cases h with
  | seam hseam => simp [hseam] at hc
  | token _ hsight h => exact ⟨hsight, h⟩

/-- If a token that an operand may follow stands right before the seam, then nothing
touches it there. -/
def Guarded (S : Seam) (ts : List Token) : Prop :=
  ∀ t : Token, t :: S.first <:+ ts → t.kind ∈ Token.Kind.openEnded → S.loose

/-- At the seam the second reading sees nothing, or it sees a minus where the
first one has come to its end. -/
theorem sight_at_seam (hc : c.rest = S.first) (hc' : c'.rest = S.second) :
    c'.sight = none ∨ c.sight = none ∧ ∃ s, c'.sight = some s ∧ s.kind = .minus := by
  rcases S.ends with hsecond | ⟨hfirst, hsecond⟩
  · exact .inl (Cursor.sight_eq_none.2 (hc'.trans hsecond))
  · refine .inr ⟨Cursor.sight_eq_none.2 (hc.trans hfirst), ?_⟩
    rw [← hc', ← Cursor.sight_kind] at hsecond
    simpa using hsecond

/-! ## Tracking -/

variable {ts : List Token} {finish i m : Nat} {α β σ : Type} {p q : Parser α}

/-- What is read by `p`, unless it ends fewer than `m` tokens before the seam, is read by
`q` where it sees the same, and it ends where it sees the same. -/
def Tracks (S : Seam) (ts : List Token) (finish m i : Nat) (p q : Parser α) : Prop :=
  i ≤ ts.length → ∀ a e, p.run (place ts finish i) = .ok (a, e) →
    S.first.length + m ≤ e.rest.length → ∀ c', S.Along (place ts finish i) c' →
      ∃ e', q.run c' = .ok (a, e') ∧ S.Along e e'

namespace Tracks

/-- Nothing is asked of a reading without a result. -/
theorem of_error (h : ∀ a e, p.run (place ts finish i) ≠ .ok (a, e)) :
    S.Tracks ts finish m i p q := fun _ a e hr => absurd hr (h a e)

theorem pure (a : α) : S.Tracks ts finish m i (pure a) (pure a) := by
  intro _ b e hr _ c' hc
  obtain ⟨rfl, rfl⟩ := Parser.run_pure_eq_ok.1 hr
  exact ⟨c', rfl, hc⟩

/-- The second part takes its tokens before the seam, so the first one ends early enough. -/
theorem bind {f g : α → Parser β} (hp : S.Tracks ts finish n i p q)
    (hf : Parser.Takes ts finish i p fun a j => S.Tracks ts finish m j (f a) (g a) ∧
      Parser.Takes ts finish j (f a) fun _ k => n + j ≤ m + k) :
    S.Tracks ts finish m i (p >>= f) (q >>= g) := by
  intro hi b e h he c' hc
  obtain ⟨a, d, hpr, hfr⟩ := Parser.run_bind_eq_ok.1 h
  obtain ⟨j, -, hj, rfl, hrel, htakes⟩ := hf hi a d hpr
  obtain ⟨k, -, hk, rfl, hmargin⟩ := htakes hj b e hfr
  have hlength : (place ts finish k).rest.length = ts.length - k := Cursor.length_rest_place
  have hd : S.first.length + n ≤ (place ts finish j).rest.length := by
    rw [Cursor.length_rest_place]
    omega
  obtain ⟨d', hqr, hd⟩ := hp hi a _ hpr hd c' hc
  obtain ⟨e', hgr, he'⟩ := hrel hj b _ hfr he d' hd
  exact ⟨e', Parser.run_bind_eq_ok.2 ⟨a, d', hqr, hgr⟩, he'⟩

/-- A token that is taken before the seam stands in both texts. -/
theorem skip {kind : Token.Kind} (hkind : (place ts finish i).Shows kind) :
    S.Tracks ts finish m i Parser.skip Parser.skip := by
  rintro - _ e ⟨⟩ he c' hc
  have hlt := Cursor.lt_of_shows hkind
  rw [Cursor.advance_place hlt, Cursor.length_rest_place] at he
  refine ⟨c'.advance, rfl, (hc.before ?_).2⟩
  rw [Cursor.length_rest_place]
  omega

/-- A token is taken after the look, so the look is before the seam. -/
theorem look {f g : Option Sight → Parser α}
    (h : S.Tracks ts finish m i (f (place ts finish i).sight) (g (place ts finish i).sight))
    (htakes : Parser.Takes ts finish i (f (place ts finish i).sight) fun _ j => i < j) :
    S.Tracks ts finish m i (Parser.look >>= f) (Parser.look >>= g) := by
  intro hi a e hr he c' hc
  obtain ⟨j, -, hj, rfl, hlt⟩ := htakes hi a e hr
  obtain ⟨e', hr', he'⟩ := h hi a _ hr he c' hc
  refine ⟨e', ?_, he'⟩
  have hbefore : S.first.length < (place ts finish i).rest.length := by
    rw [Cursor.length_rest_place] at he ⊢
    omega
  rw [Parser.run_look_bind, ← (hc.before hbefore).1, hr']

/-- Here the seam may be, and the second reading sees a minus that the first one does not. -/
theorem glance {f g : Option Sight → Parser α} {z : α}
    (hf : f (place ts finish i).sight = Pure.pure z)
    (hg : g (place ts finish i).sight = Pure.pure z) (hnone : g none = Pure.pure z)
    (hminus : ∀ s : Sight, m = 0 → (place ts finish i).rest = S.first → S.second ≠ [] →
      s.kind = .minus → (S.loose → s.touching = none) → g (some s) = Pure.pure z) :
    S.Tracks ts finish m i (Parser.look >>= f) (Parser.look >>= g) := by
  intro _ a e hr he c' hc
  rw [Parser.run_look_bind, hf] at hr
  obtain ⟨rfl, rfl⟩ := Parser.run_pure_eq_ok.1 hr
  refine ⟨c', ?_, hc⟩
  suffices hgc : g c'.sight = Pure.pure z by
    rw [Parser.run_look_bind, hgc]
    rfl
  cases hc with
  | token _ hsight => exact hsight ▸ hg
  | seam hc₁ hc₂ hloose =>
    rcases sight_at_seam hc₁ hc₂ with hs | ⟨-, s, hs, hkind⟩
    · exact hs ▸ hnone
    · rw [hs]
      refine hminus s ?_ hc₁ ?_ hkind fun h => ?_
      · rw [hc₁] at he
        omega
      · rintro hsecond
        rw [Cursor.sight_eq_none.2 (hc₂.trans hsecond)] at hs
        cases hs
      · have hloose := hloose h
        rwa [hs, Option.bind_some] at hloose

/-- Each repetition may go on for as long as its own list of tokens, since a step that goes
on takes one. -/
theorem iterate_go {step step' : σ → Parser (Option σ)} {I : σ → Nat → Prop} {j n n' : Nat}
    {s : σ} (h : ∀ s j, i ≤ j → I s j → S.Tracks ts finish m j (step s) (step' s) ∧
      Parser.Takes ts finish j (step s) fun o k => o.elim (k = j) fun s' => j < k ∧ I s' k)
    (hend : ∀ s, Parser.Declines (step s)) (hend' : ∀ s, Parser.Declines (step' s)) (hij : i ≤ j)
    (hj : j ≤ ts.length) (hs : I s j) {a : σ} {e c' : Cursor}
    (hgo : (Parser.iterate.go step n s).run (place ts finish j) = .ok (a, e))
    (hn : ts.length ≤ j + n) (hn' : c'.rest.length ≤ n')
    (he : S.first.length + m ≤ e.rest.length) (hc : S.Along (place ts finish j) c') :
    ∃ e', (Parser.iterate.go step' n' s).run c' = .ok (a, e') ∧ S.Along e e' := by
  -- on the bound of the first repetition; the two bounds differ by what is behind the seam
  induction n generalizing s j c' n' with
  | zero =>
    obtain ⟨rfl, rfl⟩ := Parser.run_pure_eq_ok.1 hgo
    cases n' with
    | zero => exact ⟨c', rfl, hc⟩
    | succ n' =>
      have hrun := hend s (place ts finish j) (List.drop_eq_nil_of_le hn)
      obtain ⟨e', hrun', he'⟩ := (h s j hij hs).1 hj none _ hrun he c' hc
      exact ⟨e', Parser.run_iterate_go_succ.2 (.inl ⟨hrun', rfl⟩), he'⟩
  | succ n ih =>
    rcases Parser.run_iterate_go_succ.1 hgo with ⟨hstep, rfl⟩ | ⟨s', d, hstep, hgo⟩
    · obtain ⟨e', hrun', he'⟩ := (h s j hij hs).1 hj none e hstep he c' hc
      cases n' with
      | zero =>
        rw [hend' s c' (List.eq_nil_of_length_eq_zero (Nat.le_zero.1 hn'))] at hrun'
        cases hrun'
        exact ⟨c', rfl, he'⟩
      | succ n' => exact ⟨e', Parser.run_iterate_go_succ.2 (.inl ⟨hrun', rfl⟩), he'⟩
    · obtain ⟨k, -, hk, rfl, hlt, hs'⟩ := (h s j hij hs).2 hj _ d hstep
      have hik := Nat.le_trans hij (Nat.le_of_lt hlt)
      have hrest : Parser.Takes ts finish k (Parser.iterate.go step n s') I :=
        .iterate_go (fun s l hl hs => ((h s l hl hs).2).mono fun o _ _ ho => by
          cases o with
          | none => exact ho
          | some s' => exact ho.2) hik hs'
      obtain ⟨l, hkl, hl, rfl, -⟩ := hrest hk a e hgo
      have hlength : (place ts finish l).rest.length = ts.length - l := Cursor.length_rest_place
      have hlength' : (place ts finish k).rest.length = ts.length - k := Cursor.length_rest_place
      have hlength'' : (place ts finish j).rest.length = ts.length - j := Cursor.length_rest_place
      obtain ⟨d', hrun', hd'⟩ := (h s j hij hs).1 hj _ _ hstep (by omega) c' hc
      have hseam := hc.length_eq
      have hseam' := hd'.length_eq
      cases n' with
      | zero => omega
      | succ n' =>
        have hn : ts.length ≤ k + n := by omega
        have hn' : d'.rest.length ≤ n' := by omega
        obtain ⟨e', hgo', he'⟩ := ih hik hk hs' hgo hn hn' hd'
        exact ⟨e', Parser.run_iterate_go_succ.2 (.inr ⟨s', d', hrun', hgo'⟩), he'⟩

/-- Both repetitions have as many steps in hand as there are tokens left for them. -/
theorem iterate {step step' : σ → Parser (Option σ)} {I : σ → Nat → Prop} {s : σ}
    (h : ∀ s j, i ≤ j → I s j → S.Tracks ts finish m j (step s) (step' s) ∧
      Parser.Takes ts finish j (step s) fun o k => o.elim (k = j) fun s' => j < k ∧ I s' k)
    (hend : ∀ s, Parser.Declines (step s)) (hend' : ∀ s, Parser.Declines (step' s))
    (hs : I s i) :
    S.Tracks ts finish m i (Parser.iterate step s) (Parser.iterate step' s) := by
  intro hi a e hr he c' hc
  refine iterate_go h hend hend' (Nat.le_refl i) hi hs hr ?_ (Nat.le_refl _) he hc
  rw [Cursor.length_rest_place]
  omega

end Tracks

/-- Right behind a token that an operand may follow, the seam is loose. -/
theorem Guarded.loose {kind : Token.Kind} (h : S.Guarded ts)
    (hkind : (place ts finish i).Shows kind) (hopen : kind ∈ Token.Kind.openEnded)
    (hrest : (place ts finish (i + 1)).rest = S.first) : S.loose := by
  obtain ⟨t, ht, rfl⟩ := Option.map_eq_some_iff.1 (Cursor.shows_place.1 hkind)
  obtain ⟨hlt, rfl⟩ := List.getElem?_eq_some_iff.1 ht
  refine h ts[i] ?_ hopen
  rw [← hrest, Cursor.place, ← List.drop_eq_getElem_cons hlt]
  exact List.drop_suffix i ts

/-- Two readings up to the seam. -/
def tracking (S : Seam) (ts : List Token) (finish : Nat) (h : S.Guarded ts) :
    Parser.Coupling ts finish where
  Relates := S.Tracks ts finish
  Sees m i s := m = 0 ∧ (place ts finish i).rest = S.first ∧ S.second ≠ [] ∧ s.kind = .minus ∧
    (S.loose → s.touching = none)
  relates_pure := .pure
  relates_bind := .bind
  relates_skip := .skip
  relates_unexpected _ := .of_error fun _ _ => Parser.run_unexpected_ne_ok
  relates_refuse _ _ := .of_error fun _ _ => Parser.run_refuse_ne_ok
  relates_look := .look
  relates_glance hf hg hnone hminus :=
    .glance hf hg hnone fun s hm hrest hsecond hkind hloose =>
      hminus s ⟨hm, hrest, hsecond, hkind, hloose⟩
  relates_iterate := .iterate
  kind_of_sees h := h.2.2.2.1
  loose_of_sees hkind hopen hs := hs.2.2.2.2 (h.loose hkind hopen hs.2.1)
  not_sees_one h := absurd h.1 Nat.one_ne_zero

end Seam

namespace Parser

/-! ## Expressions -/

variable {S : Seam} {ts : List Token} {finish i m : Nat} {hguarded : S.Guarded ts}

/-- **Reading is local.** What is read up to the seam is read in the second text
too, with any depth that is enough for the tokens that it has there. -/
theorem tracks_expression (hm : m = 0 → S.second = []) {depth depth' : Nat}
    (hdepth : ts.length + S.second.length ≤ i + depth' + S.first.length) :
    (S.tracking ts finish hguarded).Keeps m i (expression depth) (expression depth')
      (Says ts i) := by
  refine ⟨takes_expression depth, ?_⟩
  induction depth generalizing m i depth' with
  | zero => exact .of_error fun _ _ => run_unexpected_ne_ok
  | succ depth ih =>
    have hsum {depth' : Nat}
        (hdepth : ts.length + S.second.length ≤ i + (depth' + 1) + S.first.length) :
        (S.tracking ts finish hguarded).Keeps m i (expression (depth + 1))
          (expression (depth' + 1)) (Says ts i) := by
      refine .sum (fun j hj => ⟨takes_expression depth, ?_⟩) fun j s hs =>
        absurd (hm hs.1) hs.2.2.1
      exact ih (fun h => absurd h Nat.one_ne_zero) (by omega)
    cases depth' with
    | succ depth' => exact (hsum hdepth).relates
    | zero =>
      -- the seam is here, or behind; an expression takes a token before it
      intro hi a e hr he
      obtain ⟨j, -, hj, rfl, hlt, -⟩ := takes_expression (depth + 1) hi a e hr
      rw [Cursor.length_rest_place] at he
      omega

/-- In brackets the second reading needs depth for what it has behind the seam too. -/
theorem within_expression {depth depth' : Nat}
    (hdepth : ts.length + S.second.length ≤ i + (depth' + 1) + S.first.length) :
    (S.tracking ts finish hguarded).Within i (expression depth) (expression depth') :=
  fun j hj => tracks_expression (fun h => absurd h Nat.one_ne_zero) (by omega)

end Parser

end DiceNotation
