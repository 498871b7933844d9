import DiceNotation.Notation.Modifier

/-!
# Forms

A `Form` is one layer of an expression: a number, dice, a group, a chain of
operators, a function, with its parts left open as `ε`. A tree is a form whose
parts are trees (`Node`); the evaluator works on a form whose parts are rolls
in progress, and the serialized shape is read as a form whose parts are
serialized.
-/

namespace DiceNotation

/-- What a die is rolled against: the fate marker, or a number of faces. -/
inductive Sides (ε : Type) where
  | fate
  | numeric (faces : ε)
deriving DecidableEq

/-- A die specification with everything written after it. -/
structure DieSpec (ε : Type) where
  sides : Sides ε
  count : ε
  /-- Keep, drop and re-roll modifiers, in written order. -/
  mods : List (Modifier ε) := []
  /-- Success, failure and critical conditions, in written order. -/
  targets : List (Modifier ε) := []
  matching : Option (Matching ε) := none
  sort : Option SortOrder := none
deriving DecidableEq

/-- An operator with the term to its right. -/
structure Link (ω ε : Type) where
  op : ω
  term : ε
deriving DecidableEq

/-- One layer of an expression. -/
inductive Form (ε : Type) where
  | number (value : Number)
  /-- An embedded roll in double brackets. -/
  | inline (expr : ε)
  | die (spec : DieSpec ε)
  /-- Rolls in braces, at least one. -/
  | group (first : ε) (rest : List ε) (mods : List (Modifier ε))
  /-- Terms joined by `+` and `-`, from left to right. -/
  | sum (head : ε) (tail : List (Link SumOp ε))
  /-- Terms joined by any operators, from left to right. -/
  | chain (head : ε) (tail : List (Link ArithOp ε))
  | function (fn : NumFn) (arg : ε)
deriving DecidableEq

/-! ## Replacing the parts -/

section Map

variable {ε φ ω : Type} (f : ε → φ)

def Sides.map : Sides ε → Sides φ
  | .fate => .fate
  | .numeric faces => .numeric (f faces)

def Link.map (l : Link ω ε) : Link ω φ := ⟨l.op, f l.term⟩

def DieSpec.map (s : DieSpec ε) : DieSpec φ where
  sides := s.sides.map f
  count := f s.count
  mods := s.mods.map (Modifier.map f)
  targets := s.targets.map (Modifier.map f)
  matching := s.matching.map (Matching.map f)
  sort := s.sort

def Form.map : Form ε → Form φ
  | .number value => .number value
  | .inline expr => .inline (f expr)
  | .die spec => .die (spec.map f)
  | .group first rest mods => .group (f first) (rest.map f) (mods.map (Modifier.map f))
  | .sum head tail => .sum (f head) (tail.map (Link.map f))
  | .chain head tail => .chain (f head) (tail.map (Link.map f))
  | .function fn arg => .function fn (f arg)

end Map

end DiceNotation
