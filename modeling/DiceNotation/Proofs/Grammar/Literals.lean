import DiceNotation.Proofs.Double.Overflow
import DiceNotation.Proofs.Grammar.Sound
import DiceNotation.Proofs.Json.RoundTrip

/-!
# Literals that are too large

A decimal literal past the largest double is read as an infinity, and nothing else that is
read is one: what some tokens say is finite exactly if their literals are
(`Spans.finite_iff`). An integer literal past the largest integer is not read at all
(`Spans.hasValue`).
-/

namespace DiceNotation

/-! ## Finite expressions -/

namespace Node

variable {form : Form Node} {label : Option String} {n : Node}

/-- An expression is finite if its numbers are, its own and those of its parts. -/
theorem finite_term : (term form label).Finite ↔
    (∀ v, form = .number v → v.isFinite) ∧ ∀ n ∈ form.parts, n.Finite :=
  ⟨fun | .term hnumber hparts => ⟨hnumber, hparts⟩, fun h => .term h.1 h.2⟩

@[simp] theorem finite_number {v : Number} : (number v).Finite ↔ v.isFinite := by
  simp [number, finite_term]

@[simp] theorem finite_int (x : Int64) : (int x).Finite := finite_number.2 rfl

@[simp] theorem finite_withLabel {text : String} : (n.withLabel text).Finite ↔ n.Finite := by
  cases n with
  | term form label => exact finite_term.trans finite_term.symm
  | unsupported => exact Iff.rfl

end Node

/-! ## Literals -/

namespace Token

/-- What the token says is an integer, if it is an integer literal. -/
def HasValue (t : Token) : Prop := t.kind = .integer → (Parser.integerValue? t.text).isSome

/-- What the token says is finite, if it is a decimal literal. -/
def IsFinite (t : Token) : Prop :=
  t.kind = .decimal → ∀ x ∈ Double.ofText? t.text, x.isFinite

/-- All literals but decimals are finite. -/
theorem isFinite_of_ne_decimal {t : Token} (h : t.kind ≠ .decimal) : t.IsFinite :=
  fun hkind => absurd hkind h

end Token

namespace Spans

variable {ts : List Token} {i j : Nat} {ns : List Node}

/-- The integers that are read all have values. -/
theorem hasValue (h : Spans ts i j ns) : Token.Throughout ts i j Token.HasValue := by
  refine h.throughout (fun t hplain hkind => ?_) (fun t _ hvalue _ => hvalue) fun t hdecimal h => ?_
  · exact absurd hkind (of_decide_eq_true hplain).2.1
  · cases hdecimal.symm.trans h

/-- **What is read is finite** exactly if the tokens are that say it. -/
theorem finite_iff (h : Spans ts i j ns) :
    (∀ n ∈ ns, n.Finite) ↔ Token.Throughout ts i j Token.IsFinite := by
  induction h with
  | nil => exact iff_of_true nofun Token.throughout_self
  | append h h' ih ih' => rw [List.forall_mem_append, ih, ih', Token.throughout_append h.le h'.le]
  | perm _ hperm ih => exact (forall_congr' fun n => by rw [hperm.mem_iff]).trans ih
  | word ht hkind =>
    refine iff_of_true nofun ((Token.throughout_succ ht).2 (Token.isFinite_of_ne_decimal ?_))
    exact (of_decide_eq_true hkind).2.2
  | unwritten =>
    exact iff_of_true (List.forall_mem_singleton.2 (Node.finite_int _)) Token.throughout_self
  | integer ht hkind =>
    refine iff_of_true (List.forall_mem_singleton.2 (Node.finite_int _))
      ((Token.throughout_succ ht).2 (Token.isFinite_of_ne_decimal ?_))
    rw [hkind]
    decide
  | @decimal i t x ht hkind hx negative =>
    rw [List.forall_mem_singleton, Token.throughout_succ ht, Node.finite_number, Token.IsFinite,
      hkind, hx]
    cases negative <;> simp [Number.isFinite, Double.isFinite_neg]
  | layer _ hnumber _ ih =>
    rw [List.forall_mem_singleton, Node.finite_term, ih]
    exact and_iff_right fun v hv => absurd hv (hnumber v)
  | labelled _ _ _ ih =>
    rw [List.forall_mem_singleton] at ih ⊢
    rw [Node.finite_withLabel, ih]

end Spans

end DiceNotation
