import DiceNotation.Roll.Selection

/-!
# Matching and sorting

A match marks the dice whose face enough of them share, whether they count or
not. A sort lays the dice out by face; dice of one face stay in the order they
had, in both directions.
-/

namespace DiceNotation

open Counted

/-- The distinct faces that enough dice share and that meet the condition. -/
def sharedFaces (least : Number) (condition : Option (Condition Number))
    (rolls : List RolledDie) : List Int64 :=
  let faces := rolls.map RolledDie.roll
  faces.eraseDups.filter fun face =>
    (Number.int (Int64.ofNat (faces.count face))).atLeast least &&
      condition.all fun c => c.meets (.int face)

/-- The dice with those of the given faces marked. -/
def markMatched (faces : List Int64) (rolls : List RolledDie) : List RolledDie :=
  rolls.map fun d => if d.roll ∈ faces then { d with matched := true } else d

/-- The dice in the order of their faces, with their new places. -/
def SortOrder.apply (order : SortOrder) (rolls : List RolledDie) : List RolledDie :=
  numbered <| rolls.mergeSort fun a b =>
    match order with
    | .ascending => decide (a.roll ≤ b.roll)
    | .descending => decide (b.roll ≤ a.roll)

end DiceNotation
