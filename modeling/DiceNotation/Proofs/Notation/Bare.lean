import DiceNotation.Proofs.Notation.Parts

/-!
# Bare expressions

`Node.bare` removes all labels from an expression and puts what is in double
brackets in the place of the brackets, at every depth: in counts and sides, in
members and terms, and in what modifiers compare with. An expression has none
of both if and only if it is its own bare expression (`Node.bare_eq_self_iff`).
-/

namespace DiceNotation

/-- An embedded roll as it stands, and any other layer without a label. -/
def Form.bareNode (form : Form Node) : Node :=
  match form with
  | .inline expr => expr
  | form => .term form none

namespace Node

/-- The expression without labels and without double brackets. -/
def bare : Node → Node := fold (fun form _ => form.bareNode) .unsupported

/-- Below its own label and inline wrapper a term is made bare part by part. -/
theorem bare_term (form : Form Node) (label : Option String) :
    (term form label).bare = (form.map bare).bareNode :=
  fold_term ..

theorem bare_unsupported : unsupported.bare = unsupported := fold_unsupported ..

/-- An expression with no label and no embedded roll, in any layer. -/
inductive Plain : Node → Prop
  | term {form : Form Node} : (∀ expr, form ≠ .inline expr) → (∀ n ∈ form.parts, n.Plain) →
    Plain (.term form none)
  | unsupported : Plain .unsupported

/-- Nothing is left to take off what was made bare. -/
theorem bare_plain (node : Node) : node.bare.Plain := by
  refine fold_induction (P := Plain) (fun form _ hparts => ?_) .unsupported node
  cases form with
  | inline expr => exact hparts expr List.mem_cons_self
  | number | die | group | sum | chain | function => exact .term (by simp) hparts

/-- What has neither labels nor inline wrappers is bare already. -/
theorem Plain.bare_eq {node : Node} (h : node.Plain) : node.bare = node := by
  induction h with
  | @term form hinline _ ih =>
    rw [bare_term, Form.map_congr (g := id) ih, Form.map_id]
    cases form with
    | inline expr => exact absurd rfl (hinline expr)
    | number | die | group | sum | chain | function => rfl
  | unsupported => exact bare_unsupported

theorem bare_eq_self_iff {node : Node} : node.bare = node ↔ node.Plain :=
  ⟨fun h => h ▸ bare_plain node, Plain.bare_eq⟩

end Node

end DiceNotation
