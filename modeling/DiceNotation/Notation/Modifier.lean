import DiceNotation.Operator

/-!
# Modifiers

What may be written after dice and after groups. A modifier has at most one
part that is an expression of its own: a count to keep, a target to compare
with. `ε` stands for that part, so the same types hold an expression that is
still a tree, and one that is on its way to a value.
-/

namespace DiceNotation

/-- A comparison with its target. -/
structure Condition (ε : Type) where
  compare : Comparison
  target : ε
deriving DecidableEq

/-- What a selection does with the dice that it names. -/
inductive Selection where
  | keep
  | drop
deriving DecidableEq, Repr

/-- What meeting a condition means for a die: one success more, one success
less, or a mark that shows but does not count. -/
inductive Test where
  | success
  | failure
  | crit
  | critfail
deriving DecidableEq, Repr

/-- How a die that meets a trigger is rolled again. -/
inductive Mechanic where
  | explode
  | compound
  | penetrate
  | reroll
  | rerollOnce
deriving DecidableEq, Repr

/-- One modifier of a die or of a group. -/
inductive Modifier (ε : Type) where
  /-- Keep or drop so many, at the given end or at the usual one. -/
  | select (action : Selection) (extreme : Option Extreme) (count : ε)
  /-- Test every die against a condition. -/
  | test (meaning : Test) (condition : Condition ε)
  /-- Roll again what meets the trigger, or the trigger of the die itself. -/
  | again (mechanic : Mechanic) (trigger : Option (Condition ε))
  /-- A modifier of a kind that this library does not know. -/
  | unsupported
deriving DecidableEq

/-- Marks dice whose face is shared by `least` dice at least and meets the
condition, which needs both of its parts to be one. -/
structure Matching (ε : Type) where
  least : ε
  /-- The number of matching faces replaces the sum. -/
  counts : Bool
  compare : Option Comparison
  target : Option ε
deriving DecidableEq

/-- How the dice of one specification are laid out. -/
inductive SortOrder where
  | ascending
  | descending
deriving DecidableEq, Repr

/-! ## Names -/

def Selection.name : Selection → String
  | .keep => "keep"
  | .drop => "drop"

def Test.name : Test → String
  | .success => "success"
  | .failure => "failure"
  | .crit => "crit"
  | .critfail => "critfail"

def Mechanic.name : Mechanic → String
  | .explode => "explode"
  | .compound => "compound"
  | .penetrate => "penetrate"
  | .reroll => "reroll"
  | .rerollOnce => "rerollOnce"

def Modifier.name {ε : Type} : Modifier ε → String
  | .select action _ _ => action.name
  | .test meaning _ => meaning.name
  | .again mechanic _ => mechanic.name
  | .unsupported => "unsupported"

/-- The modifier turns values into counts of successes. -/
def Modifier.isTarget {ε : Type} : Modifier ε → Bool
  | .test .success _ | .test .failure _ => true
  | _ => false

/-! ## Replacing the expressions -/

section Map

variable {ε φ : Type} (f : ε → φ)

def Condition.map (c : Condition ε) : Condition φ := ⟨c.compare, f c.target⟩

def Modifier.map : Modifier ε → Modifier φ
  | .select action extreme count => .select action extreme (f count)
  | .test meaning condition => .test meaning (condition.map f)
  | .again mechanic trigger => .again mechanic (trigger.map (Condition.map f))
  | .unsupported => .unsupported

def Matching.map (m : Matching ε) : Matching φ :=
  ⟨f m.least, m.counts, m.compare, m.target.map f⟩

end Map

end DiceNotation
