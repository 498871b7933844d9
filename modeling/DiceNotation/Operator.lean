import DiceNotation.Number

/-!
# Operators, functions and comparisons

The closed vocabularies of the notation that act on numbers. `+` and `-` join
the terms of a dice expression (`SumOp`); a math expression has all six
operators (`ArithOp`). Comparisons are inclusive: `>` is "at least" and `<` is
"at most".
-/

namespace DiceNotation

/-! ## Comparisons -/

/-- How a condition compares a value with its target. -/
inductive Comparison where
  | atLeast
  | atMost
  | equal
deriving DecidableEq, Repr

namespace Comparison

def symbol : Comparison → String
  | .atLeast => ">"
  | .atMost => "<"
  | .equal => "="

/-- The value meets the target. A NaN on either side meets nothing. -/
def test : Comparison → Number → Number → Bool
  | .atLeast, value, target => value.atLeast target
  | .atMost, value, target => value.atMost target
  | .equal, value, target => value.same target

end Comparison

/-- Which end of the ranking a selection takes. -/
inductive Extreme where
  | high
  | low
deriving DecidableEq, Repr

def Extreme.symbol : Extreme → String
  | .high => "h"
  | .low => "l"

/-! ## Operators -/

/-- The operators between the terms of a dice expression. -/
inductive SumOp where
  | add
  | sub
deriving DecidableEq, Repr

namespace SumOp

def symbol : SumOp → String
  | .add => "+"
  | .sub => "-"

def apply : SumOp → Number → Number → Number
  | .add, x, y => x + y
  | .sub, x, y => x - y

end SumOp

/-- The operators of a math expression. -/
inductive ArithOp where
  | add
  | sub
  | mul
  | div
  | rem
  | pow
deriving DecidableEq, Repr

namespace ArithOp

def symbol : ArithOp → String
  | .add => "+"
  | .sub => "-"
  | .mul => "*"
  | .div => "/"
  | .rem => "%"
  | .pow => "**"

/-- The operator on two numbers. Dividing by zero has an answer here as well;
the evaluator refuses it before it asks. -/
def apply : ArithOp → Number → Number → Number
  | .add, x, y => x + y
  | .sub, x, y => x - y
  | .mul, x, y => x * y
  | .div, x, y => x / y
  | .rem, x, y => x % y
  | .pow, x, y => x.pow y

end ArithOp

/-! ## Functions -/

/-- The functions of one argument. -/
inductive NumFn where
  | floor
  | ceil
  | round
  | abs
deriving DecidableEq, Repr

namespace NumFn

def symbol : NumFn → String
  | .floor => "floor"
  | .ceil => "ceil"
  | .round => "round"
  | .abs => "abs"

def apply : NumFn → Number → Number
  | .floor, x => x.floor
  | .ceil, x => x.ceil
  | .round, x => x.round
  | .abs, x => x.abs

end NumFn

end DiceNotation
