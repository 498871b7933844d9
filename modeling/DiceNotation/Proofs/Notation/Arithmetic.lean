import DiceNotation.Proofs.Notation.Bare
import DiceNotation.Proofs.Token.Words

/-!
# Arithmetic

Expressions of integers, operators, functions, brackets and unmodified groups
(`Node.Arithmetic`). Of these, a text can say those that have no label which
brackets cannot hold and no literal that is the lowest integer, whose digits
alone are no integer (`Node.Writable`).
-/

namespace DiceNotation

variable {ε : Type}

/-- A layer without dice, doubles and modifiers. -/
def Form.Arithmetic : Form ε → Prop
  | .number (.int _) => True
  | .number (.float _) | .die _ => False
  | .group _ _ mods => mods = []
  | _ => True

theorem Form.Arithmetic.isDie {form : Form ε} (h : form.Arithmetic) : form.isDie = false := by
  cases form with
  | die spec => cases h
  | number | inline | group | sum | chain | function => rfl

/-- A layer without a literal that has no digits. -/
def Form.Writable : Form ε → Prop
  | .number (.int i) => (i.toInt.natAbs : Int) ≤ Number.highest
  | _ => True

namespace Node

/-- No dice, no doubles and no modifiers in any layer. -/
inductive Arithmetic : Node → Prop
  | term {form : Form Node} {label : Option String} (hform : form.Arithmetic)
    (hparts : ∀ n ∈ form.parts, n.Arithmetic) : Arithmetic (.term form label)

/-- Literals with digits and labels for brackets in all layers. -/
inductive Writable : Node → Prop
  | term {form : Form Node} {label : Option String} (hform : form.Writable)
    (hlabel : ∀ l ∈ label, Text.IsLabel l) (hparts : ∀ n ∈ form.parts, n.Writable) :
    Writable (.term form label)

end Node

end DiceNotation
