import DiceNotation.Text.Quoted
import DiceNotation.Token

/-!
# Parse errors

A text that is no expression is refused with a cause and the piece of the text
that caused it: the token found instead of an expected one, or the empty piece
at the end of the text. `ParseError.message` is the whole wording.
-/

namespace DiceNotation

namespace ParseError

/-- What is wrong with a text. -/
inductive Cause where
  /-- Something else was expected than this token, or than the end. -/
  | unexpectedToken (found : Option Token.Kind) (expected : List Token.Kind)
  /-- Something was expected where no token can start. -/
  | unexpectedString (expected : List Token.Kind)
  /-- An integer that an `Int64` cannot hold. -/
  | invalidNumber
  /-- A modifier that only dice can have stands after a group. -/
  | invalidGroupModifier (kind : Token.Kind)
  /-- A second match or a second sort on the same dice. -/
  | duplicateModifier (kind : Token.Kind)
deriving DecidableEq

/-- Alternatives as a message lists them: `a`, `a or b`, `a, b, or c`. -/
def alternatives : List String → String
  | [] => ""
  | [a] => a
  | [a, b] => a ++ " or " ++ b
  | a :: b :: c :: rest => a ++ ", " ++ listed b (c :: rest)
where
  listed (item : String) : List String → String
    | [] => "or " ++ item
    | next :: rest => item ++ ", " ++ listed next rest

namespace Cause

def text : Cause → String
  | unexpectedToken (some found) expected =>
    "unexpected token: found " ++ found.text ++ ", expected " ++
      alternatives (expected.map Token.Kind.text)
  | unexpectedToken none expected =>
    "unexpected end of input, expected " ++ alternatives (expected.map Token.Kind.text)
  | unexpectedString expected =>
    "expected " ++ alternatives (expected.map Token.Kind.text)
  | invalidNumber => "number is out of range"
  | invalidGroupModifier kind => kind.text ++ " can only be used with dice, not groups"
  | duplicateModifier kind => kind.text ++ " cannot be applied twice to the same roll"

end Cause

end ParseError

/-- Why a text is refused, and where: the bytes from `start` to `stop`, which
hold `slice`. -/
structure ParseError where
  cause : ParseError.Cause
  start : Nat
  stop : Nat
  slice : String
deriving DecidableEq

namespace ParseError

/-- An error about one token. -/
def onToken (cause : Cause) (t : Token) : ParseError := ⟨cause, t.start, t.stop, t.text⟩

def message (e : ParseError) : String :=
  "error at position " ++ toString e.start ++ " (" ++ Text.quote e.slice ++ "): " ++ e.cause.text

end ParseError

end DiceNotation
