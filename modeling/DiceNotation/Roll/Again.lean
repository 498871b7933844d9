import DiceNotation.Roll.Rolling
import DiceNotation.Roll.Selection

/-!
# Rolling again

A die that meets a trigger is rolled again, and the new die is tested in turn.
Exploding dice put the new die next to the old one; penetrating ones take one
off it first; compounding ones add it to the old one. A re-rolled die stays on
the table and does not count.

Chains that add dice end after `maxChain` new ones. The unbounded re-roll ends
when a die misses the trigger, or with the supply.
-/

namespace DiceNotation

open Counted

/-- The most dice that one chain adds. -/
def maxChain : Nat := 1000

/-- The face that triggers a mechanic when none is written: the highest one,
or a one for re-rolls. -/
def Mechanic.defaultFace (mechanic : Mechanic) (kind : DieType) : Int64 :=
  match mechanic with
  | .explode | .compound | .penetrate => kind.max
  | .reroll | .rerollOnce => 1

/-- The face of a die meets the trigger. -/
def hits (trigger : Condition Number) (roll : Int64) : Bool := trigger.meets (.int roll)

/-- Every face meets the trigger. A comparison with one number that holds at
both ends of a range holds all over it, so only the ends are tested. -/
def hitsAll (trigger : Condition Number) (kind : DieType) : Bool :=
  hits trigger kind.min && hits trigger kind.max

section Chains

variable (kind : DieType) (trigger : Condition Number)

/-! ## Exploding -/

/-- The dice of one chain, from the given one on, with at most so many new
ones. Each new die has `penalty` taken off before it is tested. -/
def explodeChain (penalty : Int64) : Nat → RolledDie → Rolling (List RolledDie)
  | 0, d => pure [d]
  | n + 1, d => do
    if hits trigger d.roll then
      let next ← kind.roll 0
      let chain ← explodeChain penalty n (next.setRoll (next.roll - penalty))
      return { d with exploded := true } :: chain
    else return [d]

def explodeAll (penalty : Int64) (rolls : List RolledDie) : Rolling (List RolledDie) :=
  return numbered (← rolls.flatMapM (explodeChain kind trigger penalty maxChain))

/-! ## Compounding -/

/-- The total of one chain, from its last face and its total so far. -/
def compoundChain : Nat → Int64 → Number → Rolling Number
  | 0, _, total => pure total
  | n + 1, last, total => do
    if hits trigger last then
      let next ← kind.rollFace
      compoundChain n next (total + .int next)
    else return total

def compoundDie (d : RolledDie) : Rolling RolledDie := do
  if hits trigger d.roll then
    let total ← compoundChain kind trigger maxChain d.roll (.int d.roll)
    return { d with exploded := true }.setTotal total
  else return d

def compoundAll (rolls : List RolledDie) : Rolling (List RolledDie) :=
  rolls.mapM (compoundDie kind trigger)

/-! ## Re-rolling -/

/-- The die with its replacement announced. -/
def RolledDie.replaced (d : RolledDie) : RolledDie :=
  { d with rerolled := true, outcome := { d.outcome with valid := false } }

/-- A die and its replacements, after those already on the table. Every step
draws a value, so what the supply has left bounds the steps. -/
def rerollChain : Nat → List RolledDie → RolledDie → Rolling (List RolledDie)
  | 0, _, _ => throw .unfinished
  | n + 1, before, d => do
    if hits trigger d.roll then
      let next ← kind.roll 0
      rerollChain n (d.replaced :: before) next
    else return (d :: before).reverse

/-- A die with its last replacement, or alone. -/
def rerollToMiss (d : RolledDie) : Rolling (List RolledDie) := do
  rerollChain kind trigger ((← Rolling.remaining) + 1) [] d

/-- A die with at most one replacement, which is not tested. -/
def rerollOneTime (d : RolledDie) : Rolling (List RolledDie) := do
  if hits trigger d.roll then return [d.replaced, ← kind.roll 0] else return [d]

def rerollAll (once : Bool) (rolls : List RolledDie) : Rolling (List RolledDie) :=
  return numbered (← rolls.flatMapM
    (if once then rerollOneTime kind trigger else rerollToMiss kind trigger))

end Chains

/-- Applies a mechanic, unless its trigger leaves no face to end with. -/
def Mechanic.apply (mechanic : Mechanic) (kind : DieType) (trigger : Condition Number)
    (rolls : List RolledDie) : Rolling (List RolledDie) := do
  if hitsAll trigger kind then Rolling.refuse (.invalidTrigger mechanic)
  else
    match mechanic with
    | .explode => explodeAll kind trigger 0 rolls
    | .penetrate => explodeAll kind trigger 1 rolls
    | .compound => compoundAll kind trigger rolls
    | .reroll => rerollAll kind trigger false rolls
    | .rerollOnce => rerollAll kind trigger true rolls

end DiceNotation
