import DiceNotation.Proofs.Grammar.Expressions

/-!
# Errors at places

A parser that fails refuses the token at a place ahead of it for a cause that suits it, or
the end (`Parser.points_expression`).

What is refused as unexpected is never of a kind that was expected there, unless
something that has to touch the token before does not (`Cursor.Blames`).
-/

namespace DiceNotation

open Token (Kind)
open Cursor (place)

variable {ts : List Token} {finish i m : Nat}

namespace Cursor

/-- A token that is seen at a loose place starts elsewhere than where the one before ended.
-/
theorem Loose.exists_stop {c : Cursor} {t : Token} (h : c.Loose) (ht : t ∈ c.rest.head?) :
    ∃ stop, c.previous = some stop ∧ stop ≠ t.start := by
  obtain ⟨hprevious, htouching⟩ := h
  obtain ⟨stop, hstop⟩ := Option.ne_none_iff_exists'.1 hprevious
  refine ⟨stop, hstop, fun heq => ?_⟩
  rw [sight, Option.mem_def.1 ht, Option.map_some, Option.bind_some, hstop, heq] at htouching
  simp [Sight.touching] at htouching

/-- The errors that can be raised at a place. -/
inductive Blames (c : Cursor) : ParseError → Prop
  | ending {expected : List Kind} (h : c.rest = []) :
    Blames c ⟨.unexpectedToken none expected, c.finish, c.finish, ""⟩
  /-- A token of a kind that was expected has a gap in front. -/
  | unexpected {t : Token} {expected : List Kind} (h : t ∈ c.rest.head?) (hkind : t.kind ≠ .error)
    (hloose : t.kind ∈ expected → c.Loose) :
    Blames c (.onToken (.unexpectedToken (some t.kind) expected) t)
  | unknown {t : Token} {expected : List Kind} (h : t ∈ c.rest.head?) (hkind : t.kind = .error) :
    Blames c (.onToken (.unexpectedString expected) t)
  | number {t : Token} (h : t ∈ c.rest.head?) (hkind : t.kind = .integer ∨ t.kind = .decimal) :
    Blames c (.onToken .invalidNumber t)
  | group {t : Token} (h : t ∈ c.rest.head?) (hkind : t.kind ∈ Parser.diceOnly) :
    Blames c (.onToken (.invalidGroupModifier t.kind) t)
  | duplicate {t : Token} (h : t ∈ c.rest.head?) (hkind : t.kind ∈ Parser.diceOnly) :
    Blames c (.onToken (.duplicateModifier t.kind) t)

end Cursor

namespace Parser

variable {α β σ : Type} {p : Parser α}

/-- From its place behind `i` tokens the parser refuses nothing but what is at a place ahead. -/
def Points (ts : List Token) (finish i : Nat) (p : Parser α) : Prop :=
  i ≤ ts.length → ∀ err, p.run (place ts finish i) = .error err →
    ∃ j, i ≤ j ∧ j ≤ ts.length ∧ (place ts finish j).Blames err

namespace Points

/-- A step that refuses here blames what is here. -/
theorem of_blames
    (h : ∀ err, p.run (place ts finish i) = .error err → (place ts finish i).Blames err) :
    Points ts finish i p := fun hi err hr => ⟨i, Nat.le_refl i, hi, h err hr⟩

theorem pure (a : α) : Points ts finish i (pure a) := by
  rintro - err ⟨⟩

theorem skip : Points ts finish i skip := by
  rintro - err ⟨⟩

/-- Either part may be the one that refuses. -/
theorem bind {f : α → Parser β} (hp : Points ts finish i p)
    (hf : Takes ts finish i p fun a j => Points ts finish j (f a)) :
    Points ts finish i (p >>= f) := by
  intro hi err h
  rcases run_bind_eq_error.1 h with h | ⟨a, d, hpr, hfr⟩
  · exact hp hi err h
  · obtain ⟨j, hij, hj, rfl, hpoints⟩ := hf hi a d hpr
    obtain ⟨k, hjk, hk, herr⟩ := hpoints hj err hfr
    exact ⟨k, Nat.le_trans hij hjk, hk, herr⟩

/-- An expected token is blamed only where it fails to touch the one before. -/
theorem unexpected {expected : List Kind}
    (h : ∀ kind ∈ expected, (place ts finish i).Shows kind → (place ts finish i).Loose) :
    Points ts finish i (unexpected expected : Parser α) := by
  refine of_blames fun err hr => ?_
  obtain rfl : (place ts finish i).unexpected expected = err := Except.error.inj hr
  unfold Cursor.unexpected
  split
  · next hrest => exact .ending hrest
  · next t us hrest =>
    have ht : t ∈ (place ts finish i).rest.head? := by rw [hrest]; rfl
    have hshows : (place ts finish i).Shows t.kind := by
      rw [Cursor.Shows, Cursor.sight_kind, hrest]
      rfl
    split
    · next hkind => exact .unknown ht hkind
    · next hkind => exact .unexpected ht hkind fun hexpected => h _ hexpected hshows

/-- A token is blamed for a cause that concerns its kind. -/
theorem refuse {kind : Kind} {cause : ParseError.Cause} (hkind : (place ts finish i).Shows kind)
    (h : cause.Concerns kind) : Points ts finish i (refuse cause : Parser α) := by
  rw [Cursor.Shows, Cursor.sight_kind] at hkind
  obtain ⟨t, ht, rfl⟩ := Option.map_eq_some_iff.1 hkind
  refine of_blames fun err hr => ?_
  rw [run_refuse ht] at hr
  cases hr
  cases cause with
  | invalidNumber => exact .number ht h
  | invalidGroupModifier kind =>
    obtain ⟨rfl, hkind⟩ := h
    exact .group ht hkind
  | duplicateModifier kind =>
    obtain ⟨rfl, hkind⟩ := h
    exact .duplicate ht hkind
  | unexpectedToken | unexpectedString => exact h.elim

/-- A look refuses nothing. -/
theorem look {f : Option Sight → Parser α} (h : Points ts finish i (f (place ts finish i).sight)) :
    Points ts finish i (Parser.look >>= f) := h

/-- The step that refuses blames what is where it stands. -/
theorem iterate {step : σ → Parser (Option σ)} {I : σ → Nat → Prop} {s : σ}
    (h : ∀ s j, i ≤ j → I s j → Points ts finish j (step s) ∧
      Takes ts finish j (step s) fun o k => o.elim (k = j) fun s' => j < k ∧ I s' k)
    (hs : I s i) : Points ts finish i (iterate step s) := by
  have hgo (n : Nat) (s : σ) (j : Nat) (hij : i ≤ j) (hs : I s j) :
      Points ts finish j (iterate.go step n s) := by
    induction n generalizing s j with
    | zero => exact pure s
    | succ n ih =>
      refine bind (h s j hij hs).1 ((h s j hij hs).2.mono fun o k hjk ho => ?_)
      cases o with
      | none => exact pure s
      | some s' => exact ih s' k (Nat.le_trans hij hjk) ho.2
  exact hgo (place ts finish i).rest.length s i (Nat.le_refl i) hs

end Points

/-- What a reading blames. -/
def Coupling.blaming : Coupling ts finish where
  toBeyond := .nothing
  Relates _ i p _ := Points ts finish i p
  relates_pure := .pure
  relates_bind hp hf := hp.bind (hf.mono fun _ _ _ h => h.1)
  relates_skip _ := .skip
  relates_unexpected := .unexpected
  relates_refuse := .refuse
  relates_look h _ := .look h
  relates_glance hf _ _ _ := .look (hf ▸ .pure _)
  relates_iterate h _ _ hs := .iterate h hs

/-- **Errors of expressions** are about what is there. -/
theorem points_expression {depth : Nat} (h : ts.length ≤ i + depth) :
    Points ts finish i (expression depth) :=
  (Coupling.Keeps.expression (R := .blaming) (m := 0) (fun _ _ => id) h).relates

end Parser

end DiceNotation
