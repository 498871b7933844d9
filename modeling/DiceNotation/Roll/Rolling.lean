import DiceNotation.Roll.Result

/-!
# Rolls in progress

Evaluation draws random values one after the other from a `Supply`. It ends
with a result or with an error (`RollError`), and either way it is known how
many values were drawn. A supply has a limit: a roll that goes on past it,
which only the unbounded re-roll and very many dice can do, is `unfinished`.
-/

namespace DiceNotation

/-! ## Errors -/

/-- What a roll cannot be evaluated for. -/
inductive RollError where
  /-- More dice at once than the ceiling allows. -/
  | limitExceeded (requested : Number) (limit : UInt64)
  /-- Every face of the die meets the trigger. -/
  | invalidTrigger (mechanic : Mechanic)
  /-- An expression of an unknown kind. -/
  | unsupportedNode
  /-- A modifier of an unknown kind. -/
  | unsupportedModifier
  /-- A modifier that a group cannot have, by its name. -/
  | unsupportedOnGroup (modifier : String)
  | invalidDieSize (faces : Number)
  | zeroDivision
  | zeroModulo
deriving DecidableEq

def RollError.message : RollError → String
  | limitExceeded requested limit =>
    "cannot roll " ++ requested.text ++ " dice at once; the limit is " ++ toString limit.toNat
  | invalidTrigger mechanic =>
    "invalid target for '" ++ mechanic.name ++ "': every face would be re-rolled"
  | unsupportedNode => "unsupported node: unknown node type"
  | unsupportedModifier => "unsupported node: unknown modifier"
  | unsupportedOnGroup modifier =>
    "unsupported node: modifier '" ++ modifier ++ "' on a group"
  | invalidDieSize faces => "a die must have at least one face, found " ++ faces.text
  | zeroDivision => "cannot divide by zero"
  | zeroModulo => "cannot take modulus by zero"

/-- Why a roll has no result. -/
inductive Halt where
  | refused (error : RollError)
  /-- The supply of random values ran out. -/
  | unfinished
deriving DecidableEq

/-! ## Drawing -/

/-- Where random values come from: the value of each draw, and how many draws
there are. -/
structure Supply where
  value : Nat → Double
  limit : Nat

/-- What an evaluation is given: random values, and the most dice that one
specification may roll. -/
structure Setting where
  supply : Supply
  ceiling : UInt64

/-- A computation that draws random values and may halt. The state is the
number of values drawn. -/
abbrev Rolling := ReaderT Setting (ExceptT Halt (StateM Nat))

namespace Rolling

variable {α : Type}

def refuse (error : RollError) : Rolling α := throw (.refused error)

/-- How many values are left. -/
def remaining : Rolling Nat := return (← read).supply.limit - (← get)

/-- The next random value. -/
def draw : Rolling Double := do
  let drawn ← get
  let supply := (← read).supply
  if drawn < supply.limit then
    set (drawn + 1)
    return supply.value drawn
  else throw .unfinished

end Rolling

/-! ## Faces -/

/-- The face of a numeric die that a random value stands for: of `faces` equal
parts of the unit interval the one that holds it. A value at the upper end
stands for the highest face. -/
def numericFace (faces : Int64) (random : Double) : Int64 :=
  min (Number.clampToInt64 Double.floor (random * Double.ofInt faces.toInt)) (faces - 1) + 1

/-- The face of a fate die that a random value stands for. -/
def fateFace (random : Double) : Int64 :=
  Number.clampToInt64 Double.floor (random * Double.ofInt 3) - 1

/-- The face of a die of any kind. -/
def DieType.face : DieType → Double → Int64
  | .fate, random => fateFace random
  | .numeric faces, random => numericFace faces random

/-- Draws a face. -/
def DieType.rollFace (kind : DieType) : Rolling Int64 := return kind.face (← Rolling.draw)

/-- Rolls one die. -/
def DieType.roll (kind : DieType) (order : Nat) : Rolling RolledDie :=
  return .ofRoll kind (← kind.rollFace) order

/-- Rolls so many dice. More than there are values left for are not begun. -/
def DieType.rollMany (kind : DieType) (n : Nat) : Rolling (List RolledDie) := do
  if (← Rolling.remaining) < n then throw .unfinished
  else (List.range n).mapM kind.roll

end DiceNotation
