import DiceNotation.Roll.Result

/-!
# Selecting and counting

Keep and drop rank the items that still count and discard from one end of the
ranking; equal items stand in it as they stand in the list. Conditions turn
values into counts of successes (`convert`), after which whatever met none of
them counts for nothing (`zeroUnconverted`). Both work on single dice, ranked
and tested by their faces, and on the members of groups, by their values; the
`key` says which.
-/

namespace DiceNotation

open Counted

/-- The value meets the condition. -/
def Condition.meets (c : Condition Number) (value : Number) : Bool :=
  c.compare.test value c.target

/-! ## Positions -/

/-- For every position below `size`, whether it is one of those given. -/
def markedPositions (positions : List Nat) (size : Nat) : Array Bool :=
  positions.foldl (fun marks i => marks.setIfInBounds i true) (Array.replicate size false)

theorem getD_foldl_mark (positions : List Nat) (marks : Array Bool) (i : Nat) :
    (positions.foldl (fun marks i => marks.setIfInBounds i true) marks).getD i false =
      (marks.getD i false || decide (i ∈ positions ∧ i < marks.size)) := by
  induction positions generalizing marks with
  | nil => simp
  | cons p rest ih =>
    rw [List.foldl_cons, ih]
    simp only [Array.getD_eq_getD_getElem?, Array.getElem?_setIfInBounds, Array.size_setIfInBounds]
    by_cases hp : p = i
    · subst hp
      by_cases hi : p < marks.size <;> simp [hi]
    · simp [hp, Ne.symm hp]

/-- A position is marked if it is given and there is one. -/
theorem getD_markedPositions (positions : List Nat) (size i : Nat) :
    (markedPositions positions size).getD i false = decide (i ∈ positions ∧ i < size) := by
  rw [markedPositions, getD_foldl_mark]
  by_cases hi : i < size <;> simp [hi]

section Items

variable {α : Type} [Counted α] (key : α → Number)

/-! ## Keep and drop -/

/-- The place of an item in the ranking. -/
def rankOf (a : α) : Int := (key a).toDouble.totalRank

/-- The positions of the items that still count, from the first to be discarded
to the last. -/
def ranking (descending : Bool) (items : List α) : List Nat :=
  let ranked := (items.zipIdx.filter fun p => valid p.1).map fun p => (rankOf key p.1, p.2)
  let sorted := ranked.mergeSort fun p q =>
    if descending then decide (q.1 ≤ p.1) else decide (p.1 ≤ q.1)
  sorted.map Prod.snd

/-- The list with the items at the given positions discarded. -/
def discardAt (positions : List Nat) (items : List α) : List α :=
  let marks := markedPositions positions items.length
  items.mapIdx fun i a => if marks.getD i false then discard a else a

/-- **The marks are membership**, so that a proof need not look at them. -/
theorem discardAt_eq_mapIdx (positions : List Nat) (items : List α) :
    discardAt positions items =
      items.mapIdx fun i a => if i ∈ positions then Counted.discard a else a := by
  apply List.ext_getElem (by simp [discardAt])
  intro i h _
  have hi : i < items.length := by simpa [discardAt] using h
  simp only [discardAt, getD_markedPositions, List.getElem_mapIdx]
  simp [hi]

/-- The highest are discarded first: to keep low ones, or to drop high ones. -/
def Selection.fromTop (action : Selection) (extreme : Option Extreme) : Bool :=
  match action with
  | .keep => extreme = some .low
  | .drop => extreme = some .high

/-- How many of `valid` items are discarded for a count of `n`. -/
def Selection.discards (action : Selection) (valid n : Nat) : Nat :=
  match action with
  | .keep => valid - n
  | .drop => n

/-- Keeps or drops as many as asked for, between none and all. -/
def selectItems (action : Selection) (extreme : Option Extreme) (count : Number)
    (items : List α) : List α :=
  let ranked := ranking key (action.fromTop extreme) items
  let discards := action.discards ranked.length (count.toCount items.length)
  discardAt (ranked.take discards) items

/-! ## Successes and failures -/

/-- An item that meets a condition: one step up or down from its count, which
starts here if it has none yet. -/
def countOne (delta : Int64) (a : α) : α :=
  if success a then setValue (value a + .int delta) a
  else setOutcome { outcome a with value := .int delta, success := true } a

/-- Counts a condition on every item that still counts. -/
def convert (condition : Condition Number) (delta : Int64) (items : List α) : List α :=
  items.map fun a => if valid a && condition.meets (key a) then countOne delta a else a

/-- Items that met no condition count for nothing. -/
def zeroUnconverted (items : List α) : List α :=
  items.map fun a =>
    if success a then a
    else setOutcome { outcome a with value := .zero, success := true } a

end Items

/-! ## Critical marks -/

/-- The mark after a condition: met, it is the given one; not met, the given
one is taken away. -/
def Critical.update (kind : Critical) (met : Bool) (mark : Option Critical) : Option Critical :=
  if met then some kind else if mark = some kind then none else mark

/-- Marks the dice that still count and are not converted. -/
def markCritical (condition : Condition Number) (kind : Critical) (rolls : List RolledDie) :
    List RolledDie :=
  rolls.map fun d =>
    if valid d && !success d then
      d.setCritical (kind.update (condition.meets (.int d.roll)) d.critical)
    else d

end DiceNotation
