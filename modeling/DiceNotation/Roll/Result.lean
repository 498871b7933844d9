import DiceNotation.Notation.Form

/-!
# Results of rolls

A `Result` records everything that was rolled and what became of it. Every
node has an `Outcome`: its value, whether it still counts, whether the value
is a count of successes by now. A single die (`RolledDie`) has one too, beside
the face that came up.

`Counted` is what a result and a single die have in common: modifiers that
select or count work on both through it.
-/

namespace DiceNotation

/-- What every node of a result has. -/
structure Outcome where
  value : Number
  /-- Counts towards the sum around it. -/
  valid : Bool := true
  /-- The value is a count of successes and failures. -/
  success : Bool := false
  /-- The place among its siblings. -/
  order : Nat := 0
  label : Option String := none
deriving DecidableEq

/-- What an outcome adds to the sum around it. -/
def Outcome.total (o : Outcome) : Number := if o.valid then o.value else .zero

/-! ## Single dice -/

/-- A kind of die: fate, or so many faces. -/
abbrev DieType := Sides Int64

namespace DieType

/-- The lowest face. -/
def min : DieType → Int64
  | .fate => -1
  | .numeric _ => 1

/-- The highest face. -/
def max : DieType → Int64
  | .fate => 1
  | .numeric faces => faces

end DieType

/-- A mark that shows and does not count. -/
inductive Critical where
  | success
  | failure
deriving DecidableEq, Repr

/-- What kind of die a face came up on. Only a numeric die can have a mark. -/
inductive Face where
  | numeric (faces : Int64) (critical : Option Critical)
  | fate
deriving DecidableEq

/-- One die on the table. -/
structure RolledDie where
  outcome : Outcome
  face : Face
  /-- The face that came up; the value may leave it when modifiers apply. -/
  roll : Int64
  matched : Bool := false
  exploded : Bool := false
  rerolled : Bool := false
  dropped : Bool := false
deriving DecidableEq

namespace RolledDie

/-- The highest face is a critical success and a one a critical failure; on a
die of one face the one is the highest. -/
def criticalOf (faces roll : Int64) : Option Critical :=
  if roll = faces then some .success else if roll = 1 then some .failure else none

/-- A die of the given kind that shows `roll`, not modified yet. -/
def ofRoll (kind : DieType) (roll : Int64) (order : Nat) : RolledDie where
  outcome := { value := .int roll, order := order }
  face := match kind with
    | .fate => .fate
    | .numeric faces => .numeric faces (criticalOf faces roll)
  roll := roll

def critical (d : RolledDie) : Option Critical :=
  match d.face with
  | .numeric _ critical => critical
  | .fate => none

/-- The die with its mark replaced; a fate die has none. -/
def setCritical (critical : Option Critical) (d : RolledDie) : RolledDie :=
  match d.face with
  | .numeric faces _ => { d with face := .numeric faces critical }
  | .fate => d

/-- The die with another face up, and its value with it. Marks stay. -/
def setRoll (roll : Int64) (d : RolledDie) : RolledDie :=
  { d with roll := roll, outcome := { d.outcome with value := .int roll } }

/-- The die with an accumulated total as its value. The face follows as far as
an integer goes. -/
def setTotal (total : Number) (d : RolledDie) : RolledDie :=
  { d with roll := total.toInt64, outcome := { d.outcome with value := total } }

end RolledDie

/-! ## Trees -/

/-- One layer of a result, with its parts left open. -/
inductive Shape (ε : Type) where
  | number
  /-- A die specification: what gave the count and the sides, and the dice.
  Once `matched`, the value is a number of matching faces and not a sum. -/
  | dice (count : ε) (sides : Sides ε) (rolls : List RolledDie) (matched : Bool)
  /-- The terms of a dice expression and the operators between them. -/
  | sum (terms : List ε) (ops : List SumOp)
  /-- The terms of a math expression and the operators between them. -/
  | chain (terms : List ε) (ops : List ArithOp)
  | group (members : List ε)
  | function (fn : NumFn) (arg : ε)
deriving DecidableEq

/-- The result of evaluating an expression. -/
inductive Result where
  | mk (outcome : Outcome) (shape : Shape Result)

namespace Result

def outcome : Result → Outcome
  | mk outcome _ => outcome

def shape : Result → Shape Result
  | mk _ shape => shape

def value (r : Result) : Number := r.outcome.value

def setOutcome (outcome : Outcome) : Result → Result
  | mk _ shape => mk outcome shape

end Result

/-! ## What counts -/

/-- Things with an outcome, which a selection may take out of the sum. -/
class Counted (α : Type) where
  outcome : α → Outcome
  setOutcome : Outcome → α → α
  /-- Takes the thing out of the sum around it. -/
  discard : α → α

namespace Counted

variable {α : Type} [Counted α]

def value (a : α) : Number := (outcome a).value

def valid (a : α) : Bool := (outcome a).valid

def success (a : α) : Bool := (outcome a).success

def label (a : α) : Option String := (outcome a).label

/-- The contribution to the sum around it. -/
def total (a : α) : Number := (outcome a).total

def setOrder (order : Nat) (a : α) : α := setOutcome { outcome a with order := order } a

def setLabel (label : String) (a : α) : α := setOutcome { outcome a with label := some label } a

def setValue (value : Number) (a : α) : α := setOutcome { outcome a with value := value } a

/-- The sum of what still counts, from left to right. -/
def sumTotals (items : List α) : Number := Number.sum (items.map total)

/-- The items with their places as their orders. -/
def numbered (items : List α) : List α := items.mapIdx setOrder

end Counted

/-- A discarded die shows that it is. -/
instance : Counted RolledDie where
  outcome := RolledDie.outcome
  setOutcome o d := { d with outcome := o }
  discard d := { d with outcome := { d.outcome with valid := false }, dropped := true }

instance : Counted Result where
  outcome := Result.outcome
  setOutcome := Result.setOutcome
  discard r := r.setOutcome { r.outcome with valid := false }

/-! ## Building results -/

namespace Result

open Counted

def number (value : Number) : Result := mk { value := value } .number

instance : Inhabited Result := ⟨number .zero⟩

/-- A die specification with the sum of its dice as value. -/
def dice (count : Result) (sides : Sides Result) (rolls : List RolledDie) : Result :=
  mk { value := sumTotals rolls } (.dice count sides rolls false)

/-- A die specification with the number of its matching faces as value. -/
def matchedDice (count : Result) (sides : Sides Result) (rolls : List RolledDie) (faces : Nat) :
    Result :=
  mk { value := .int (Int64.ofNat faces) } (.dice count sides rolls true)

def sum (value : Number) (terms : List Result) (ops : List SumOp) : Result :=
  mk { value := value } (.sum terms ops)

def chain (value : Number) (terms : List Result) (ops : List ArithOp) : Result :=
  mk { value := value } (.chain terms ops)

def group (members : List Result) : Result :=
  mk { value := sumTotals members } (.group members)

def function (fn : NumFn) (arg : Result) : Result :=
  mk { value := fn.apply arg.value } (.function fn arg)

end Result

end DiceNotation
