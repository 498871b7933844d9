import DiceNotation.Grammar.Expression
import DiceNotation.Roll.Evaluate

/-!
# Sessions

A `Session` rolls one expression after the other from one supply of random
values, and knows how many of them it has drawn. Its ceiling, a thousand dice
per specification unless set otherwise, holds for every roll that follows.
-/

namespace DiceNotation

/-- Why a text has no result. -/
inductive Failure where
  | parse (error : ParseError)
  | roll (error : RollError)
  /-- The supply of random values ran out. -/
  | unfinished
deriving DecidableEq

namespace Failure

def ofHalt : Halt → Failure
  | .refused error => .roll error
  | .unfinished => .unfinished

def message : Failure → String
  | parse error => error.message
  | roll error => error.message
  | unfinished => "the roll does not end"

end Failure

/-- The most dice that one specification rolls unless set otherwise. -/
def defaultCeiling : UInt64 := 1000

/-- A supply of random values in use. -/
structure Session where
  supply : Supply
  ceiling : UInt64 := defaultCeiling
  /-- The number of values drawn so far. -/
  drawn : Nat := 0

namespace Session

def setCeiling (ceiling : UInt64) (s : Session) : Session := { s with ceiling := ceiling }

/-- Runs a computation, and goes on from the values that it drew. -/
def run {α : Type} (computation : Rolling α) (s : Session) : Except Halt α × Session :=
  let (answer, drawn) := ((computation.run ⟨s.supply, s.ceiling⟩).run).run s.drawn
  (answer, { s with drawn := drawn })

/-- Rolls a tree. -/
def rollNode (node : Node) (s : Session) : Except Failure Result × Session :=
  let (answer, s) := s.run node.roll
  (answer.mapError Failure.ofHalt, s)

/-- Reads a text and rolls it. A text that is no expression draws nothing. -/
def roll (text : String) (s : Session) : Except Failure Result × Session :=
  match parse text with
  | .ok node => s.rollNode node
  | .error error => (.error (.parse error), s)

/-- Reads a text and rolls it, for its value. -/
def rollValue (text : String) (s : Session) : Except Failure Number × Session :=
  let (answer, s) := s.roll text
  (answer.map Result.value, s)

end Session

/-- Rolls a text once, with a session of its own. -/
def roll (supply : Supply) (text : String) : Except Failure Result :=
  (Session.roll text { supply }).1

/-- The value of a text rolled once. -/
def rollValue (supply : Supply) (text : String) : Except Failure Number :=
  (Session.rollValue text { supply }).1

end DiceNotation
