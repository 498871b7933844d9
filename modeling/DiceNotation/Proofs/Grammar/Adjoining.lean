import DiceNotation.Proofs.Grammar.Subtraction
import DiceNotation.Proofs.Token.Adjoining

/-!
# Reading words side by side

Where words stand without gaps between them, each one touches the one before it, so
modifiers and operands are taken as such (`Parser.Consumes`). Words that are a term are
an expression (`Reads.of_consumes`), and what refuses them as a term refuses the text.
-/

namespace DiceNotation

open Token (Kind adjoin spell)

variable {α β : Type} {k : Kind} {s : String} {w : Kind × String}
  {ws ws' us : List (Kind × String)} {start finish : Nat} {c e : Cursor}

namespace Cursor

/-- Words that stand side by side, the first one right behind what was taken. -/
def beside (start finish : Nat) (ws : List (Kind × String)) : Cursor :=
  ⟨some start, adjoin start ws, finish⟩

@[simp] theorem sight_beside :
    (beside start finish ((k, s) :: ws)).sight = some ⟨k, s, true⟩ := by
  simp [beside, adjoin]

@[simp] theorem length_rest_beside : (beside start finish ws).rest.length = ws.length :=
  Token.length_adjoin

end Cursor

open Cursor (beside)

namespace Parser

variable {p : Parser α} {a : α} {b : β} {node : Node} {err : ParseError} {nested : Parser Node}

/-! ## Taking words -/

/-- Where these words stand side by side and `us` behind them, the parser takes them
and gives `a`. -/
def Consumes (p : Parser α) (ws us : List (Kind × String)) (a : α) : Prop :=
  ∀ start finish, ∃ stop, p.run (beside start finish (ws ++ us)) = .ok (a, beside stop finish us)

namespace Consumes

theorem pure : Consumes (pure a) [] us a := fun start _ => ⟨start, rfl⟩

/-- One after the other two parsers take what both of them take. -/
theorem bind {f : α → Parser β} (hp : Consumes p ws (ws' ++ us) a) (hf : Consumes (f a) ws' us b) :
    Consumes (p >>= f) (ws ++ ws') us b := by
  intro start finish
  obtain ⟨mid, ha⟩ := hp start finish
  obtain ⟨stop, hb⟩ := hf mid finish
  exact ⟨stop, run_bind_eq_ok.2 ⟨a, _, by rwa [List.append_assoc], hb⟩⟩

/-- What is left to do takes nothing. -/
theorem andThen {f : α → Parser β} (hp : Consumes p ws us a) (hf : Consumes (f a) [] us b) :
    Consumes (p >>= f) ws us b := by
  rw [← List.append_nil ws]
  exact bind hp hf

/-- Each word touches the one before, so a look sees it touching. -/
theorem look {f : Option Sight → Parser β}
    (h : Consumes (f (some ⟨k, s, true⟩)) ((k, s) :: ws) us b) :
    Consumes (look >>= f) ((k, s) :: ws) us b := by
  intro start finish
  rw [run_look_bind, List.cons_append, Cursor.sight_beside]
  exact h start finish

theorem peek {f : Option Kind → Parser β} (h : Consumes (f (some k)) ((k, s) :: ws) us b) :
    Consumes (peek >>= f) ((k, s) :: ws) us b := by
  rw [peek_bind]
  exact look h

/-- A look at a kind that touches sees the kind of the next word. -/
theorem touching {f : Option Kind → Parser β} (h : Consumes (f (some k)) ((k, s) :: ws) us b) :
    Consumes (touching >>= f) ((k, s) :: ws) us b := by
  rw [touching_bind]
  exact look h

/-- What is seen but not taken. -/
theorem touching_ahead {f : Option Kind → Parser β}
    (h : Consumes (f (some k)) [] ((k, s) :: us) b) :
    Consumes (Parser.touching >>= f) [] ((k, s) :: us) b := by
  rw [touching_bind]
  intro start finish
  rw [run_look_bind, List.nil_append, Cursor.sight_beside]
  exact h start finish

theorem skip {f : Unit → Parser β} (h : Consumes (f ()) ws us b) :
    Consumes (skip >>= f) (w :: ws) us b := by
  intro start finish
  obtain ⟨stop, hb⟩ := h (start + w.2.utf8ByteSize) finish
  exact ⟨stop, run_bind_eq_ok.2 ⟨(), _, rfl, hb⟩⟩

theorem expect {f : Unit → Parser β} (h : Consumes (f ()) ws us b) :
    Consumes (expect k >>= f) ((k, s) :: ws) us b := by
  unfold Parser.expect
  rw [bind_assoc]
  refine peek ?_
  rw [if_pos rfl]
  exact skip h

theorem map {g : α → β} (hp : Consumes p ws us a) : Consumes (g <$> p) ws us (g a) := by
  rw [map_eq_pure_bind]
  exact hp.andThen pure

/-- **A repetition takes what its steps take**, one after the other up to the end. -/
theorem iterate {σ τ : Type} {step : σ → Parser (Option σ)} {next : σ → τ → σ}
    {written : τ → List (Kind × String)} (hend : ∀ x, Declines (step x))
    (hstep : ∀ x y us, Consumes (step x) (written y) us (some (next x y)))
    (hwritten : ∀ y, written y ≠ []) (ys : List τ) (x : σ) :
    Consumes (iterate step x) (ys.flatMap written) [] (ys.foldl next x) := by
  -- every step takes a word at least, so there are no more steps than words
  suffices hgo : ∀ n start finish, (ys.flatMap written).length ≤ n → ∃ stop,
      (iterate.go step n x).run (beside start finish (ys.flatMap written)) =
        .ok (ys.foldl next x, beside stop finish []) by
    intro start finish
    rw [List.append_nil]
    exact hgo _ start finish Cursor.length_rest_beside.ge
  induction ys generalizing x with
  | nil =>
    rintro (_ | n) start finish -
    · exact ⟨start, rfl⟩
    · exact ⟨start, run_iterate_go_succ.2 (.inl ⟨hend x _ rfl, rfl⟩)⟩
  | cons y ys ih =>
    intro n start finish hn
    have hpos := List.length_pos_iff.2 (hwritten y)
    rw [List.flatMap_cons, List.length_append] at hn
    obtain ⟨mid, hmid⟩ := hstep x y (ys.flatMap written) start finish
    cases n with
    | zero => omega
    | succ n =>
      obtain ⟨stop, hstop⟩ := ih (next x y) n mid finish (by omega)
      exact ⟨stop, run_iterate_go_succ.2 (.inr ⟨_, _, hmid, hstop⟩)⟩

end Consumes

end Parser

/-! ## Texts of words side by side -/

section Texts

variable {node : Node} {err : ParseError}

/-- At the start of a text there is no token that the first word could touch, and
nobody asks whether it does. -/
theorem Parser.run_expression_spell (h : Token.Apart (w :: ws)) {text : String}
    (htext : spell (w :: ws) = text) :
    (expression (tokenize text).length).run (.start (tokenize text) text.utf8ByteSize) =
        (sum (expression ws.length)).run (.start (adjoin 0 (w :: ws)) text.utf8ByteSize) ∧
      (bareTerm (expression ws.length)).run (.start (adjoin 0 (w :: ws)) text.utf8ByteSize) =
        (bareTerm (expression ws.length)).run (beside 0 text.utf8ByteSize (w :: ws)) := by
  have htokens : tokenize text = adjoin 0 (w :: ws) := by
    rw [← htext, Token.tokenize_eq, h.tokensAt_eq]
  rw [htokens, Token.length_adjoin]
  exact ⟨rfl, bareTerm_run_previous⟩

/-- **Words that are a term are an expression.** -/
theorem Reads.of_consumes (h : Token.Apart ws)
    (hread : ∀ nested, (Parser.bareTerm nested).Consumes ws [] node) : Reads (spell ws) node := by
  cases ws with
  | nil =>
    obtain ⟨_, hterm⟩ := hread (Parser.expression 0) 0 0
    cases hterm
  | cons w ws =>
    obtain ⟨hexpression, hbare⟩ := Parser.run_expression_spell h rfl
    obtain ⟨stop, hterm⟩ := hread (Parser.expression ws.length) 0 (spell (w :: ws)).utf8ByteSize
    rw [List.append_nil, ← hbare] at hterm
    refine ⟨beside stop (spell (w :: ws)).utf8ByteSize [], ?_, rfl⟩
    rw [ReadsTo, hexpression]
    exact Parser.run_sum_of_bareTerm hterm rfl

/-- Words that are refused as a term are refused as an expression. -/
theorem parse_spell_eq_error (h : Token.Apart ws) (hread : ∀ nested finish,
      (Parser.bareTerm nested).run (beside 0 finish ws) = .error err) :
    parse (spell ws) = .error err := by
  cases ws with
  | nil => exact parse_eq_error (hread (Parser.expression 0) 0)
  | cons w ws =>
    obtain ⟨hexpression, hbare⟩ := Parser.run_expression_spell h rfl
    refine parse_eq_error (hexpression.trans (Parser.run_sum_of_bareTerm_error ?_))
    exact hbare.trans (hread _ _)

end Texts

end DiceNotation
