import DiceNotation.Proofs.Grammar.Looks
import DiceNotation.Proofs.Notation.Grammatical

/-!
# Which tokens say what

The tokens from one place of a text to another say some expressions (`Spans`): each literal
stands in one of them, and each layer around them is one that the notation can write. What
the tokens leave open are small integers, which nothing has to be written for.

The order of the expressions is of no account. So dice are said by what says their parts, in
whatever order modifiers are written (`SpansDice`).
-/

namespace DiceNotation

open Token (Kind)

/-- The tokens from one place to another say these expressions, and no others. -/
inductive Spans (ts : List Token) : Nat → Nat → List Node → Prop
  | nil {i : Nat} : Spans ts i i []
  | append {i j k : Nat} {ns ms : List Node} (h : Spans ts i j ns) (h' : Spans ts j k ms) :
    Spans ts i k (ns ++ ms)
  | perm {i j : Nat} {ns ms : List Node} (h : Spans ts i j ns) (hperm : ns.Perm ms) :
    Spans ts i j ms
  | word {i : Nat} {t : Token} (ht : ts[i]? = some t) (hkind : t.kind.isPlain) :
    Spans ts i (i + 1) []
  /-- A count that is not written is one, or two for a match. -/
  | unwritten {i : Nat} {n : Int64} (hn : n = 1 ∨ n = 2) : Spans ts i i [.int n]
  | integer {i : Nat} {t : Token} {n : Int64} (ht : ts[i]? = some t) (hkind : t.kind = .integer)
    (hn : Parser.integerValue? t.text = some n) (negative : Bool) :
    Spans ts i (i + 1) [.int (if negative then -n else n)]
  | decimal {i : Nat} {t : Token} {x : Double} (ht : ts[i]? = some t) (hkind : t.kind = .decimal)
    (hx : Double.ofText? t.text = some x) (negative : Bool) :
    Spans ts i (i + 1) [.number (.float (if negative then -x else x))]
  | layer {i j : Nat} {form : Form Node} (hform : form.Grammatical)
    (hnumber : ∀ v, form ≠ .number v) (h : Spans ts i j form.parts) :
    Spans ts i j [.term form none]
  | labelled {i j : Nat} {n : Node} {labels : List String} (h : Spans ts i j [n])
    (hne : labels ≠ [])
    (hlabels : ∀ l ∈ labels, ∃ t ∈ ts, t.kind = .label ∧
      l = String.ofList t.text.toList.tail.dropLast) :
    Spans ts i j [n.withLabel (" ".intercalate labels)]

namespace Spans

variable {ts : List Token} {i j k : Nat} {ns ms : List Node} {n : Node}

/-- Nodes are said from left to right. -/
theorem le (h : Spans ts i j ns) : i ≤ j := by
  induction h with
  | nil | unwritten => exact Nat.le_refl _
  | append _ _ ih ih' => exact Nat.le_trans ih ih'
  | word | integer | decimal => exact Nat.le_succ _
  | perm _ _ ih | layer _ _ _ ih | labelled _ _ _ ih => exact ih

theorem of_eq (h : Spans ts i j ns) (hns : ns = ms) : Spans ts i j ms := hns ▸ h

/-- What is said one after the other is said together. -/
theorem cons (h : Spans ts i j [n]) (h' : Spans ts j k ns) : Spans ts i k (n :: ns) :=
  append h h'

/-- Tokens in front that say nothing. -/
theorem after (h : Spans ts i j []) (h' : Spans ts j k ns) : Spans ts i k ns := append h h'

/-- Tokens behind that say nothing. -/
theorem before (h : Spans ts i j ns) (h' : Spans ts j k []) : Spans ts i k ns :=
  (append h h').of_eq (List.append_nil ns)

/-! ## Layers -/

/-- The brackets of an inline roll say no more than what is in them. -/
theorem inline (h : Spans ts i j [n]) : Spans ts i j [.inline n] := by
  have hform : (Form.inline n).Grammatical := trivial
  exact layer hform nofun h

theorem function (fn : NumFn) (h : Spans ts i j [n]) : Spans ts i j [.function fn n] := by
  have hform : (Form.function fn n).Grammatical := trivial
  exact layer hform nofun h

/-- One term, or a sum of more. -/
theorem sum {tail : List (Link SumOp Node)} (h : Spans ts i j (n :: tail.map Link.term)) :
    Spans ts i j [.sum n tail] := by
  cases tail with
  | nil => exact h
  | cons l tail =>
    have hform : (Form.sum n (l :: tail)).Grammatical := List.cons_ne_nil l tail
    exact layer hform nofun (h.of_eq (Form.parts_sum n (l :: tail)).symm)

/-- One term, or a chain of more with operators that bind alike. -/
theorem chain {tail : List (Link ArithOp Node)} (hops : UniformOps (tail.map Link.op))
    (h : Spans ts i j (n :: tail.map Link.term)) : Spans ts i j [.chain n tail] := by
  cases tail with
  | nil => exact h
  | cons l tail =>
    have hform : (Form.chain n (l :: tail)).Grammatical := ⟨List.cons_ne_nil l tail, hops⟩
    exact layer hform nofun (h.of_eq (Form.parts_chain n (l :: tail)).symm)

/-- A group says its members and then the operands of its modifiers. -/
theorem group {rest : List Node} {mods : List (Modifier Node)} (hmods : ∀ m ∈ mods, m.fitsGroups)
    (h : Spans ts i j (n :: rest ++ mods.flatMap Modifier.operands)) :
    Spans ts i j [.term (.group n rest mods) none] := by
  have hform : (Form.group n rest mods).Grammatical := hmods
  refine layer hform nofun (h.of_eq ?_)
  simp [Form.parts, Form.terms, Form.operands, Form.modifiers, Form.matching?]

end Spans

/-! ## Dice -/

/-- The tokens say dice with what is written after them so far. -/
structure SpansDice (ts : List Token) (i j : Nat) (spec : DieSpec Node) : Prop where
  grammatical : spec.Grammatical
  parts : Spans ts i j (Form.die spec).parts

/-- The parts of dice, in the order in which they are read. -/
theorem Form.parts_die {ε : Type} (spec : DieSpec ε) :
    (Form.die spec).parts = spec.count :: spec.sides.parts ++
      (spec.mods.flatMap Modifier.operands ++ (spec.targets.flatMap Modifier.operands ++
        spec.matching.toList.flatMap Matching.operands)) := by
  simp [parts, terms, operands, modifiers, matching?]

namespace SpansDice

variable {ts : List Token} {i j k : Nat} {spec : DieSpec Node} {m : Modifier Node}

/-- Dice with nothing written after them. -/
theorem start {sides : Sides Node} {count : Node} (hcount : Spans ts i j [count])
    (hsides : Spans ts j k sides.parts) :
    SpansDice ts i k { sides := sides, count := count } where
  grammatical := ⟨by simp, by simp, by simp⟩
  parts := (hcount.cons hsides).of_eq (by simp [Form.parts_die])

/-- A further modifier is said behind what was said so far. -/
theorem addModifier (h : SpansDice ts i j spec) (hm : m.isMechanical)
    (hoperands : Spans ts j k m.operands) :
    SpansDice ts i k { spec with mods := spec.mods ++ [m] } where
  grammatical :=
    ⟨List.forall_mem_append.2 ⟨h.grammatical.mods, List.forall_mem_singleton.2 hm⟩,
      h.grammatical.targets, h.grammatical.matching⟩
  parts := by
    refine (h.parts.append hoperands).perm ?_
    simp only [Form.parts_die, List.flatMap_append, List.flatMap_singleton, List.append_assoc]
    refine .append_left _ (.append_left _ ?_)
    rw [← List.append_assoc]
    exact List.perm_append_comm

/-- So is a further target. -/
theorem addTarget (h : SpansDice ts i j spec) (hm : m.isTest)
    (hoperands : Spans ts j k m.operands) :
    SpansDice ts i k { spec with targets := spec.targets ++ [m] } where
  grammatical :=
    ⟨h.grammatical.mods,
      List.forall_mem_append.2 ⟨h.grammatical.targets, List.forall_mem_singleton.2 hm⟩,
      h.grammatical.matching⟩
  parts := by
    refine (h.parts.append hoperands).perm ?_
    simp only [Form.parts_die, List.flatMap_append, List.flatMap_singleton, List.append_assoc]
    exact .append_left _ (.append_left _ (.append_left _ List.perm_append_comm))

/-- So is a match, if there was none. -/
theorem setMatching {m : Matching Node} (h : SpansDice ts i j spec) (hnone : spec.matching = none)
    (hm : m.compare.isSome = m.target.isSome) (hoperands : Spans ts j k m.operands) :
    SpansDice ts i k { spec with matching := some m } where
  grammatical := ⟨h.grammatical.mods, h.grammatical.targets, by simpa using hm⟩
  parts := (h.parts.append hoperands).of_eq (by simp [Form.parts_die, hnone])

/-- A sort order is said by no node. -/
theorem setSort (h : SpansDice ts i j spec) (order : SortOrder) :
    SpansDice ts i j { spec with sort := some order } where
  grammatical := ⟨h.grammatical.mods, h.grammatical.targets, h.grammatical.matching⟩
  parts := h.parts

/-- Tokens that say nothing may follow. -/
theorem before (h : SpansDice ts i j spec) (h' : Spans ts j k []) : SpansDice ts i k spec :=
  ⟨h.grammatical, h.parts.before h'⟩

/-- Dice are said by the tokens that say their parts. -/
theorem spans (h : SpansDice ts i j spec) : Spans ts i j [.term (.die spec) none] := by
  have hform : (Form.die spec).Grammatical := h.grammatical
  exact .layer hform nofun h.parts

end SpansDice

end DiceNotation
