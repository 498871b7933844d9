import DiceNotation.Proofs.Notation.Parts

/-!
# What the notation can write

The types of expressions have room for more than any text says: modifiers of
an unknown kind, a die test on a group, a chain of operators that bind
differently. `Node.Grammatical` is the rest, and part of it is that no form has
a modifier that it cannot apply (`Form.Grammatical.supported`).
-/

namespace DiceNotation

variable {ε φ : Type}

/-! ## Kinds of modifiers -/

def Modifier.isKnown : Modifier ε → Bool
  | .unsupported => false
  | _ => true

/-- The modifier keeps, drops or rolls again. -/
def Modifier.isMechanical : Modifier ε → Bool
  | .select .. | .again .. => true
  | _ => false

/-- The modifier tests every die against a condition. -/
def Modifier.isTest : Modifier ε → Bool
  | .test .. => true
  | _ => false

/-- The modifier selects or counts, which groups can do. -/
def Modifier.fitsGroups : Modifier ε → Bool
  | .select .. => true
  | m => m.isTarget

@[simp] theorem Modifier.isKnown_map (f : ε → φ) (m : Modifier ε) :
    (m.map f).isKnown = m.isKnown := by
  cases m <;> rfl

@[simp] theorem Modifier.isMechanical_map (f : ε → φ) (m : Modifier ε) :
    (m.map f).isMechanical = m.isMechanical := by
  cases m <;> rfl

@[simp] theorem Modifier.fitsGroups_map (f : ε → φ) (m : Modifier ε) :
    (m.map f).fitsGroups = m.fitsGroups := by
  rcases m with _ | ⟨_ | _ | _ | _, _⟩ | _ | _ <;> rfl

/-- The evaluator knows what to do with each mechanical modifier. -/
theorem Modifier.isKnown_of_isMechanical {m : Modifier ε} (h : m.isMechanical) : m.isKnown := by
  cases m <;> simp_all [isMechanical, isKnown]

theorem Modifier.isKnown_of_isTest {m : Modifier ε} (h : m.isTest) : m.isKnown := by
  cases m <;> simp_all [isTest, isKnown]

/-! ## Forms -/

/-- Every modifier of the form is one that it can apply. -/
def Form.Supported : Form ε → Prop
  | .die spec => ∀ m ∈ spec.mods ++ spec.targets, m.isKnown
  | .group _ _ mods => ∀ m ∈ mods, m.fitsGroups
  | _ => True

/-- What the evaluator supports depends on the shape of a form and not on its parts. -/
theorem Form.Supported.map (f : ε → φ) {form : Form ε} (h : form.Supported) :
    (form.map f).Supported := by
  cases form with
  | die spec => simpa [Form.map, DieSpec.map, Form.Supported, or_imp, forall_and] using h
  | group first rest mods => simpa [Form.map, Form.Supported] using h
  | number | inline | sum | chain | function => trivial

/-- A die specification as the notation writes it: the tests stand apart from
the other modifiers, and a match compares exactly if it has a target. -/
structure DieSpec.Grammatical (spec : DieSpec ε) : Prop where
  mods : ∀ m ∈ spec.mods, m.isMechanical
  targets : ∀ m ∈ spec.targets, m.isTest
  matching : ∀ m ∈ spec.matching, m.compare.isSome = m.target.isSome

/-- Operators that bind alike: powers, or products. -/
def UniformOps (ops : List ArithOp) : Prop :=
  (∀ op ∈ ops, op = .mul ∨ op = .div ∨ op = .rem) ∨ ∀ op ∈ ops, op = .pow

/-- A form as the notation writes it, whatever its parts are. -/
def Form.Grammatical : Form ε → Prop
  | .die spec => spec.Grammatical
  | .group _ _ mods => ∀ m ∈ mods, m.fitsGroups
  | .sum _ tail => tail ≠ []
  | .chain _ tail => tail ≠ [] ∧ UniformOps (tail.map Link.op)
  | _ => True

/-- The evaluator supports all that the grammar can write. -/
theorem Form.Grammatical.supported {form : Form ε} (h : form.Grammatical) : form.Supported := by
  cases form with
  | die spec =>
    intro m hm
    rcases List.mem_append.1 hm with hm | hm
    · exact Modifier.isKnown_of_isMechanical (h.mods m hm)
    · exact Modifier.isKnown_of_isTest (h.targets m hm)
  | group first rest mods => exact h
  | number | inline | sum | chain | function => trivial

/-! ## Trees -/

/-- An expression as the notation writes it, in every layer. -/
inductive Node.Grammatical : Node → Prop
  | term {form : Form Node} {label : Option String} :
    form.Grammatical → (∀ n ∈ form.parts, n.Grammatical) → Grammatical (.term form label)

namespace Node

theorem grammatical_number (value : Number) : (number value).Grammatical :=
  .term trivial (by simp)

theorem grammatical_int (value : Int64) : (int value).Grammatical := grammatical_number _

/-- A label may stand on any expression that the grammar can write. -/
theorem Grammatical.withLabel (label : String) {n : Node} (h : n.Grammatical) :
    (n.withLabel label).Grammatical := by
  obtain ⟨hform, hparts⟩ := h
  exact .term hform hparts

end Node

end DiceNotation
