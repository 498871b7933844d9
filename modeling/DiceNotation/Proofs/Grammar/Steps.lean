import DiceNotation.Proofs.Grammar.Looks

/-!
# The steps of a reading

A parser of the grammar looks at the next token, takes it or refuses it, and puts such steps one
after the other or repeats them. So what the steps of two readings have in common, and what
sequences and repetitions keep, is kept by the whole grammar (`Parser.Coupling`). The two
readings are of the same rule, with other parsers for what stands in brackets; a property of
one reading is a coupling that says nothing of the second one.

The first reading is of a text of which the places are known, so each rule also says where it
gets to and what it gives there (`Parser.Takes`). The second reading may see more behind the
first one's end, so a coupling may hold only for as many tokens before that end as its margin
says.
-/

namespace DiceNotation

open Token (Kind)
open Cursor (place)

/-- What the cause says of a token of this kind is true of it. -/
def ParseError.Cause.Concerns (kind : Kind) : Cause → Prop
  | invalidNumber => kind = .integer ∨ kind = .decimal
  | invalidGroupModifier kind' | duplicateModifier kind' =>
    kind' = kind ∧ kind ∈ Parser.diceOnly
  | _ => False

namespace Parser

variable {α β σ : Type} {ts : List Token} {finish i j m n : Nat}

/-! ## Going on -/

/-- From its place behind `i` tokens the parser goes on to a place in the text, with something
that has the property there. -/
def Takes (ts : List Token) (finish i : Nat) (p : Parser α) (Q : α → Nat → Prop) : Prop :=
  i ≤ ts.length → ∀ a e, p.run (place ts finish i) = .ok (a, e) →
    ∃ j, i ≤ j ∧ j ≤ ts.length ∧ e = place ts finish j ∧ Q a j

namespace Takes

variable {p : Parser α} {Q Q' : α → Nat → Prop}

/-- A parser without results goes on nowhere. -/
theorem of_error (h : ∀ a e, p.run (place ts finish i) ≠ .ok (a, e)) : Takes ts finish i p Q :=
  fun _ a e hr => absurd hr (h a e)

theorem pure {a : α} (h : Q a i) : Takes ts finish i (pure a) Q := by
  intro hi b e hr
  obtain ⟨rfl, rfl⟩ := run_pure_eq_ok.1 hr
  exact ⟨i, Nat.le_refl i, hi, rfl, h⟩

/-- What holds behind the first part is what the second one starts from. -/
theorem bind {f : α → Parser β} {Q' : β → Nat → Prop} (hp : Takes ts finish i p Q)
    (hf : ∀ a j, i ≤ j → Q a j → Takes ts finish j (f a) Q') :
    Takes ts finish i (p >>= f) Q' := by
  intro hi b e hr
  obtain ⟨a, d, hpr, hfr⟩ := run_bind_eq_ok.1 hr
  obtain ⟨j, hij, hj, rfl, ha⟩ := hp hi a d hpr
  obtain ⟨k, hjk, hk, rfl, hb⟩ := hf a j hij ha hj b e hfr
  exact ⟨k, Nat.le_trans hij hjk, hk, rfl, hb⟩

theorem mono (hp : Takes ts finish i p Q) (h : ∀ a j, i ≤ j → Q a j → Q' a j) :
    Takes ts finish i p Q' := by
  intro hi a e hr
  obtain ⟨j, hij, hj, he, ha⟩ := hp hi a e hr
  exact ⟨j, hij, hj, he, h a j hij ha⟩

section Iterate

variable {step : σ → Parser (Option σ)} {I : σ → Nat → Prop} {s : σ}
  (h : ∀ s j, i ≤ j → I s j → Takes ts finish j (step s) fun o k => o.elim (k = j) fun s' => I s' k)

include h

/-- What the steps pass on holds at the end, with any fuel. -/
theorem iterate_go (hij : i ≤ j) (hs : I s j) : Takes ts finish j (iterate.go step n s) I := by
  induction n generalizing s j with
  | zero => exact pure hs
  | succ n ih =>
    refine (h s j hij hs).bind fun o k hjk ho => ?_
    cases o with
    | none =>
      obtain rfl : k = j := ho
      exact pure hs
    | some s' => exact ih (Nat.le_trans hij hjk) ho

theorem iterate (hs : I s i) : Takes ts finish i (iterate step s) I :=
  iterate_go (n := (place ts finish i).rest.length) h (Nat.le_refl i) hs

end Iterate

/-- What takes a token of every text has fewer of them left. -/
theorem length_lt {a : α} {c e : Cursor}
    (h : ∀ ts finish i, Takes ts finish i p fun b j => b = a → i < j)
    (hr : p.run c = .ok (a, e)) : e.rest.length < c.rest.length := by
  obtain ⟨ts, i, hi, hc⟩ := Cursor.exists_eq_place c
  rw [hc] at hr ⊢
  obtain ⟨j, -, hj, rfl, hlt⟩ := h ts c.finish i hi a e hr
  have hlt := hlt rfl
  rw [Cursor.length_rest_place, Cursor.length_rest_place]
  omega

end Takes

/-! ## Two readings -/

/-- What the second of two readings may see where the first one is at its end. -/
structure Beyond (ts : List Token) (finish : Nat) where
  /-- Where the first reading is behind `i` tokens and goes no further, `m` tokens before its end
  at least, the second one may see this token. -/
  Sees (m i : Nat) (s : Sight) : Prop
  kind_of_sees {m i : Nat} {s : Sight} : Sees m i s → s.kind = .minus
  /-- Nothing is seen touching a token that an operand may follow. -/
  loose_of_sees {m i : Nat} {s : Sight} {kind : Kind} :
    (place ts finish i).Shows kind → kind ∈ Kind.openEnded → Sees m (i + 1) s →
      s.touching = none
  /-- Nothing is seen in brackets. -/
  not_sees_one {i : Nat} {s : Sight} : ¬Sees 1 i s

/-- The second reading sees no more than the first one. -/
def Beyond.nothing : Beyond ts finish where
  Sees _ _ _ := False
  kind_of_sees := False.elim
  loose_of_sees _ _ := False.elim
  not_sees_one := id

/-- What two readings have in common, if their steps have it. -/
structure Coupling (ts : List Token) (finish : Nat) extends Beyond ts finish where
  /-- What the first reading does from the place behind `i` tokens on is related to what the
  second one does, as far as the first one ends `m` tokens before its end at least. -/
  Relates {α : Type} (m i : Nat) (p q : Parser α) : Prop
  relates_pure {α : Type} {m i : Nat} (a : α) : Relates m i (pure a) (pure a)
  /-- The first parts are as far from the end as what follows takes them. -/
  relates_bind {α β : Type} {n m i : Nat} {p q : Parser α} {f g : α → Parser β} :
    Relates n i p q → Takes ts finish i p (fun a j => Relates m j (f a) (g a) ∧
      Takes ts finish j (f a) fun _ k => n + j ≤ m + k) → Relates m i (p >>= f) (q >>= g)
  relates_skip {m i : Nat} {kind : Kind} : (place ts finish i).Shows kind → Relates m i skip skip
  /-- A token of a kind that was expected is refused only if it fails to touch the one before. -/
  relates_unexpected {α : Type} {m i : Nat} {expected : List Kind} :
    (∀ kind ∈ expected, (place ts finish i).Shows kind → (place ts finish i).Loose) →
      Relates m i (unexpected expected : Parser α) (unexpected expected)
  relates_refuse {α : Type} {m i : Nat} {kind : Kind} {cause : ParseError.Cause} :
    (place ts finish i).Shows kind → cause.Concerns kind →
      Relates m i (refuse cause : Parser α) (refuse cause)
  /-- A look after which a token is taken. -/
  relates_look {α : Type} {m i : Nat} {f g : Option Sight → Parser α} :
    Relates m i (f (place ts finish i).sight) (g (place ts finish i).sight) →
      Takes ts finish i (f (place ts finish i).sight) (fun _ j => i < j) →
        Relates m i (look >>= f) (look >>= g)
  /-- A look after which nothing is taken, whatever the second reading may see. -/
  relates_glance {α : Type} {m i : Nat} {f g : Option Sight → Parser α} {z : α} :
    f (place ts finish i).sight = Pure.pure z → g (place ts finish i).sight = Pure.pure z →
      g none = Pure.pure z → (∀ s, Sees m i s → g (some s) = Pure.pure z) →
        Relates m i (look >>= f) (look >>= g)
  relates_iterate {σ : Type} {m i : Nat} {step step' : σ → Parser (Option σ)} {I : σ → Nat → Prop}
    {s : σ} :
    (∀ s j, i ≤ j → I s j → Relates m j (step s) (step' s) ∧
      Takes ts finish j (step s) fun o k => o.elim (k = j) fun s' => j < k ∧ I s' k) →
      (∀ s, Declines (step s)) → (∀ s, Declines (step' s)) → I s i →
        Relates m i (iterate step s) (iterate step' s)

namespace Coupling

/-- One reading, and nothing beside it. -/
def alone : Coupling ts finish where
  toBeyond := .nothing
  Relates _ _ _ _ := True
  relates_pure _ := trivial
  relates_bind _ _ := trivial
  relates_skip _ := trivial
  relates_unexpected _ := trivial
  relates_refuse _ _ := trivial
  relates_look _ _ := trivial
  relates_glance _ _ _ _ := trivial
  relates_iterate _ _ _ _ := trivial

/-- Whatever the second reading sees at this place does not touch what is before it. -/
def Clear (R : Coupling ts finish) (i : Nat) : Prop := ∀ m s, R.Sees m i s → s.touching = none

/-- The two readings are related, and the first one takes what it takes. -/
structure Keeps (R : Coupling ts finish) (m i : Nat) (p q : Parser α) (Q : α → Nat → Prop) :
    Prop where
  takes : Takes ts finish i p Q
  relates : R.Relates m i p q

namespace Keeps

variable {R : Coupling ts finish} {p q : Parser α} {Q Q' : α → Nat → Prop} {f g : α → Parser β}
  {P : β → Nat → Prop}

/-! ## Sequences -/

theorem pure {a : α} (h : Q a i) : R.Keeps m i (pure a) (pure a) Q := ⟨.pure h, R.relates_pure a⟩

theorem mono (hp : R.Keeps m i p q Q) (h : ∀ a j, i ≤ j → Q a j → Q' a j) :
    R.Keeps m i p q Q' := ⟨hp.takes.mono h, hp.relates⟩

/-- What follows takes what the margin of the first part is larger by. -/
theorem bind (hp : R.Keeps n i p q Q)
    (hf : ∀ a j, i ≤ j → Q a j →
      R.Keeps m j (f a) (g a) fun b k => n + j ≤ m + k ∧ P b k) :
    R.Keeps m i (p >>= f) (q >>= g) P where
  takes := hp.takes.bind fun a j hij ha => (hf a j hij ha).takes.mono fun _ _ _ hb => hb.2
  relates := R.relates_bind hp.relates (hp.takes.mono fun a j hij ha =>
    ⟨(hf a j hij ha).relates, (hf a j hij ha).takes.mono fun _ _ _ hb => hb.1⟩)

/-- A sequence keeps what both of its parts keep. -/
theorem andThen (hp : R.Keeps m i p q Q)
    (hf : ∀ a j, i ≤ j → Q a j → R.Keeps m j (f a) (g a) P) :
    R.Keeps m i (p >>= f) (q >>= g) P :=
  hp.bind fun a j hij ha => (hf a j hij ha).mono fun _ _ hjk hb =>
    ⟨Nat.add_le_add_left hjk m, hb⟩

/-- What follows takes a token, so the first part ends before the end. -/
theorem before (hp : R.Keeps 1 i p q Q)
    (hf : ∀ a j, i ≤ j → Q a j → R.Keeps m j (f a) (g a) fun b k => j < k ∧ P b k) :
    R.Keeps m i (p >>= f) (q >>= g) P :=
  hp.bind fun a j hij ha => (hf a j hij ha).mono fun _ _ _ hb => ⟨by omega, hb.2⟩

theorem map {f : α → β} (hp : R.Keeps m i p q fun a j => P (f a) j) :
    R.Keeps m i (f <$> p) (f <$> q) P := by
  rw [map_eq_pure_bind, map_eq_pure_bind]
  exact hp.andThen fun a j _ ha => pure ha

/-- Parsers that branch on the same question are compared branch by branch. -/
theorem ite {c : Prop} [Decidable c] {p' q' : Parser α} (hp : c → R.Keeps m i p q Q)
    (hq : ¬c → R.Keeps m i p' q' Q) :
    R.Keeps m i (if c then p else p') (if c then q else q') Q := by
  split
  · next h => exact hp h
  · next h => exact hq h

/-! ## Single steps -/

/-- An expected token is refused only where it fails to touch the one before. -/
theorem unexpected {expected : List Kind}
    (h : ∀ kind ∈ expected, (place ts finish i).Shows kind → (place ts finish i).Loose) :
    R.Keeps m i (unexpected expected) (unexpected expected) Q :=
  ⟨.of_error fun _ _ => run_unexpected_ne_ok, R.relates_unexpected h⟩

/-- The kind of the next token was looked at, and is not among these. -/
theorem unexpected_peek {o : Option Kind} {expected : List Kind}
    (ho : (place ts finish i).sight.map Sight.kind = o) (hexpected : ∀ kind ∈ o, kind ∉ expected) :
    R.Keeps m i (Parser.unexpected expected) (Parser.unexpected expected) Q :=
  unexpected fun kind hmem hkind => absurd hmem (hexpected kind (ho ▸ hkind))

/-- The kind of the next token was looked at, if it touches the one before, and is not
among these; but it may be if it does not touch. -/
theorem unexpected_touching {o : Option Kind} {expected : List Kind} (hi : 0 < i)
    (ho : (place ts finish i).sight.bind Sight.touching = o)
    (hexpected : ∀ kind ∈ o, kind ∉ expected) :
    R.Keeps m i (Parser.unexpected expected) (Parser.unexpected expected) Q := by
  refine unexpected fun kind hmem hkind => ?_
  cases o with
  | none => exact Cursor.loose_place hi hkind ho
  | some kind' =>
    have hkind' := Cursor.shows_of_touching ho
    rw [Cursor.Shows] at hkind hkind'
    obtain rfl := Option.some.inj (hkind.symm.trans hkind')
    exact absurd hmem (hexpected kind rfl)

/-- A token is refused for a cause that concerns its kind. -/
theorem refuse {kind : Kind} {cause : ParseError.Cause} (hkind : (place ts finish i).Shows kind)
    (h : cause.Concerns kind) : R.Keeps m i (refuse cause) (refuse cause) Q where
  takes := .of_error fun _ _ => run_refuse_ne_ok
  relates := R.relates_refuse hkind h

/-- Where a token of some kind stands, both readings go on behind it. -/
theorem skip {kind : Kind} {f g : Unit → Parser α} (hkind : (place ts finish i).Shows kind)
    (hf : R.Keeps m (i + 1) (f ()) (g ()) Q) :
    R.Keeps m i (skip >>= f) (skip >>= g) fun a j => i < j ∧ Q a j := by
  have hskip : R.Keeps m i Parser.skip Parser.skip fun _ j => j = i + 1 := by
    refine ⟨fun hi a e hr => ?_, R.relates_skip hkind⟩
    have hlt := Cursor.lt_of_shows hkind
    obtain rfl : (place ts finish i).advance = e := (Prod.mk.inj (Except.ok.inj hr)).2
    exact ⟨i + 1, Nat.le_succ i, hlt, Cursor.advance_place hlt, rfl⟩
  refine hskip.andThen fun _ j _ hj => ?_
  subst hj
  exact hf.mono fun a k hk ha => ⟨hk, ha⟩

/-! ## Looks -/

/-- After a look that both readings share they take a token. -/
theorem look {f g : Option Sight → Parser α}
    (h : R.Keeps m i (f (place ts finish i).sight) (g (place ts finish i).sight)
      fun a j => i < j ∧ Q a j) :
    R.Keeps m i (look >>= f) (look >>= g) fun a j => i < j ∧ Q a j :=
  ⟨h.takes, R.relates_look h.relates (h.takes.mono fun _ _ _ ha => ha.1)⟩

/-- A look for something that may be missing: either it is taken, or the two readings decide
for `z`, and so does the second one where it sees something else. -/
theorem glance {f g : Option Sight → Parser α} {z : α}
    (h : (f (place ts finish i).sight = Pure.pure z ∧ g (place ts finish i).sight = Pure.pure z) ∨
      R.Keeps m i (f (place ts finish i).sight) (g (place ts finish i).sight)
        fun a j => i < j ∧ Q a j)
    (hz : Q z i) (hnone : g none = Pure.pure z)
    (hsees : ∀ s, R.Sees m i s → g (some s) = Pure.pure z) :
    R.Keeps m i (Parser.look >>= f) (Parser.look >>= g) Q := by
  rcases h with ⟨hf, hg⟩ | h
  · have htakes : Takes ts finish i (f (place ts finish i).sight) Q := hf ▸ .pure hz
    exact ⟨htakes, R.relates_glance hf hg hnone hsees⟩
  · exact (look h).mono fun _ _ _ ha => ha.2

variable {f g : Option Kind → Parser α} {z : α}

/-- After a look at the kind of the next token they take it. -/
theorem peek
    (h : ∀ o, (place ts finish i).sight.map Sight.kind = o →
      R.Keeps m i (f o) (g o) fun a j => i < j ∧ Q a j) :
    R.Keeps m i (peek >>= f) (peek >>= g) fun a j => i < j ∧ Q a j := by
  rw [peek_bind, peek_bind]
  exact look (h _ rfl)

/-- So they do after a look at a kind that touches. -/
theorem touching
    (h : ∀ o, (place ts finish i).sight.bind Sight.touching = o →
      R.Keeps m i (f o) (g o) fun a j => i < j ∧ Q a j) :
    R.Keeps m i (touching >>= f) (touching >>= g) fun a j => i < j ∧ Q a j := by
  rw [touching_bind, touching_bind]
  exact look (h _ rfl)

/-- Where nothing may be taken, the second reading declines a minus that the first one does
not see. -/
theorem glance_peek
    (h : ∀ o, (place ts finish i).sight.map Sight.kind = o →
      (f o = Pure.pure z ∧ g o = Pure.pure z) ∨
        R.Keeps m i (f o) (g o) fun a j => i < j ∧ Q a j)
    (hz : Q z i) (hnone : g none = Pure.pure z)
    (hminus : (∃ s, R.Sees m i s) → g (some .minus) = Pure.pure z) :
    R.Keeps m i (Parser.peek >>= f) (Parser.peek >>= g) Q := by
  rw [peek_bind, peek_bind]
  refine glance (h _ rfl) hz hnone fun s hs => ?_
  rw [Option.map_some, R.kind_of_sees hs, hminus ⟨s, hs⟩]

/-- It need not decline it behind a token that an operand may follow, where nothing touches.
-/
theorem glance_touching
    (h : ∀ o, (place ts finish i).sight.bind Sight.touching = o →
      (f o = Pure.pure z ∧ g o = Pure.pure z) ∨
        R.Keeps m i (f o) (g o) fun a j => i < j ∧ Q a j)
    (hz : Q z i) (hnone : g none = Pure.pure z)
    (hminus : g (some .minus) = Pure.pure z ∨ R.Clear i) :
    R.Keeps m i (Parser.touching >>= f) (Parser.touching >>= g) Q := by
  rw [touching_bind, touching_bind]
  refine glance (h _ rfl) hz hnone fun s hs => ?_
  rw [Option.bind_some]
  cases htouching : s.touching with
  | none => exact hnone
  | some kind =>
    rcases hminus with hminus | hclear
    · rw [← Sight.kind_of_touching htouching, R.kind_of_sees hs, hminus]
    · rw [hclear m s hs] at htouching
      cases htouching

/-- An expected token is taken or refused. -/
theorem expect {kind : Kind} {f g : Unit → Parser α}
    (hf : (place ts finish i).Shows kind → R.Keeps m (i + 1) (f ()) (g ()) Q) :
    R.Keeps m i (expect kind >>= f) (expect kind >>= g) fun a j => i < j ∧ Q a j := by
  unfold Parser.expect
  rw [bind_assoc, bind_assoc]
  refine peek fun o ho => ?_
  split
  · next hkind => exact skip (ho.trans hkind) (hf (ho.trans hkind))
  · next hkind =>
    refine andThen (Q := fun _ _ => False) (unexpected_peek ho fun kind' hkind' hmem => ?_) nofun
    exact hkind (List.mem_singleton.1 hmem ▸ hkind')

/-! ## Repetitions -/

/-- An iteration keeps what its steps pass on from state to state. -/
theorem iterate {step step' : σ → Parser (Option σ)} {I : σ → Nat → Prop}
    (h : ∀ s j, i ≤ j → I s j →
      R.Keeps m j (step s) (step' s) fun o k => o.elim (k = j) fun s' => j < k ∧ I s' k)
    (hend : ∀ s, Declines (step s)) (hend' : ∀ s, Declines (step' s)) {s : σ} (hs : I s i) :
    R.Keeps m i (iterate step s) (iterate step' s) I where
  takes := by
    refine .iterate (fun s j hij hs => (h s j hij hs).takes.mono fun o k _ ho => ?_) hs
    cases o with
    | none => exact ho
    | some s' => exact ho.2
  relates := R.relates_iterate (fun s j hij hs => ⟨(h s j hij hs).relates, (h s j hij hs).takes⟩)
    hend hend' hs

/-- A repetition keeps what its steps add to the list of what was given. -/
theorem many {step step' : Parser (Option α)} {Q : α → Nat → Nat → Prop} {P : List α → Nat → Prop}
    (h : ∀ j, i ≤ j → R.Keeps m j step step' fun o k => o.elim (k = j) fun a => j < k ∧ Q a j k)
    (hend : Declines step) (hend' : Declines step') (hnil : P [] i)
    (hconcat : ∀ l a j k, P l j → Q a j k → P (l ++ [a]) k) :
    R.Keeps m i (many step) (many step') P := by
  rw [many_eq_iterate, many_eq_iterate]
  refine map (iterate (I := fun l j => P l.reverse j) (fun l j hij hl => ?_) hend.pushing
    hend'.pushing hnil)
  refine map ((h j hij).mono fun o k _ ho => ?_)
  cases o with
  | none => exact ho
  | some a =>
    refine ⟨ho.1, ?_⟩
    rw [List.reverse_cons]
    exact hconcat _ a j k hl ho.2

end Keeps

end Coupling

end Parser

end DiceNotation
