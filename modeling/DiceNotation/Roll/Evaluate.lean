import DiceNotation.Notation.Node
import DiceNotation.Roll.Again
import DiceNotation.Roll.Layout
import DiceNotation.Roll.Pool

/-!
# Evaluation

`Form.roll` evaluates one layer of an expression whose parts are rolls in
progress, so it decides when each part is rolled, and no recursion is in it.
`Node.roll` is the fold of it over a tree (`Node.roll_term`); a label goes onto
the result.

The dice of one specification are counted, then the sides are resolved, then
the dice are rolled and modified, targets after the other modifiers, then
matched, then sorted.
-/

namespace DiceNotation

open Counted

/-! ## Counts and sides -/

/-- The most things that can be counted, which is `2 ^ 64 - 1`. -/
def maxCount : Nat := 0xffffffffffffffff

/-- How many dice a value asks for. The ceiling is compared as a signed
integer, through the view that all comparisons take. -/
def diceCount (requested : Number) : Rolling Nat := do
  let ceiling := (← read).ceiling
  if requested.above (.int ceiling.toInt64) then
    Rolling.refuse (.limitExceeded requested ceiling)
  else return requested.toCount maxCount

/-- The sides of a die, and the kind of die that they make. -/
def Sides.resolve : Sides (Rolling Result) → Rolling (Sides Result × DieType)
  | .fate => return (.fate, .fate)
  | .numeric faces => do
    let faces ← faces
    if faces.value.atLeast (.int 1) then
      return (.numeric faces, .numeric faces.value.toInt64)
    else Rolling.refuse (.invalidDieSize faces.value)

/-! ## Modifiers -/

/-- A condition with its target rolled. -/
def Condition.resolve (c : Condition (Rolling Result)) : Rolling (Condition Number) :=
  return ⟨c.compare, (← c.target).value⟩

/-- The face of a die as a number, by which dice are ranked and tested. -/
def faceValue (d : RolledDie) : Number := .int d.roll

/-- Applies a modifier to the dice of one specification. -/
def Modifier.applyToDice (kind : DieType) (rolls : List RolledDie) :
    Modifier (Rolling Result) → Rolling (List RolledDie)
  | .select action extreme count => do
    return selectItems faceValue action extreme (← count).value rolls
  | .test .success condition => return convert faceValue (← condition.resolve) 1 rolls
  | .test .failure condition => return convert faceValue (← condition.resolve) (-1) rolls
  | .test .crit condition => return markCritical (← condition.resolve) .success rolls
  | .test .critfail condition => return markCritical (← condition.resolve) .failure rolls
  | .again mechanic (some trigger) => do mechanic.apply kind (← trigger.resolve) rolls
  | .again mechanic none =>
    mechanic.apply kind ⟨.equal, .int (mechanic.defaultFace kind)⟩ rolls
  | .unsupported => Rolling.refuse .unsupportedModifier

/-- Applies a modifier to the members of a group, or to the dice in its pool. -/
def Modifier.applyToItems {α : Type} [Counted α] (items : List α) :
    Modifier (Rolling Result) → Rolling (List α)
  | .select action extreme count => do
    return selectItems value action extreme (← count).value items
  | .test .success condition => return convert value (← condition.resolve) 1 items
  | .test .failure condition => return convert value (← condition.resolve) (-1) items
  | m => Rolling.refuse (.unsupportedOnGroup m.name)

/-- Whatever no target converted counts for nothing, if there was a target. -/
def settle {ε α : Type} [Counted α] (mods : List (Modifier ε)) (items : List α) : List α :=
  if mods.any Modifier.isTarget then zeroUnconverted items else items

/-! ## Dice -/

/-- The condition on the faces of a match, if both of its parts are there. -/
def Matching.condition? (m : Matching (Rolling Result)) : Rolling (Option (Condition Number)) :=
  match m.compare, m.target with
  | some compare, some target => some <$> Condition.resolve ⟨compare, target⟩
  | _, _ => return none

/-- The faces that a match finds. -/
def Matching.faces (m : Matching (Rolling Result)) (rolls : List RolledDie) :
    Rolling (List Int64) := do
  let least ← m.least
  let condition ← m.condition?
  return sharedFaces least.value condition rolls

/-- Rolls so many dice and modifies them. -/
def DieSpec.rollDice (spec : DieSpec (Rolling Result)) (kind : DieType) (n : Nat) :
    Rolling (List RolledDie) := do
  let rolls ← kind.rollMany n
  let rolls ← spec.mods.foldlM (Modifier.applyToDice kind) rolls
  let rolls ← spec.targets.foldlM (Modifier.applyToDice kind) rolls
  return settle spec.targets rolls

/-- The dice as the specification lays them out. -/
def DieSpec.arrange {ε : Type} (spec : DieSpec ε) (rolls : List RolledDie) : List RolledDie :=
  match spec.sort with
  | some order => order.apply rolls
  | none => rolls

/-- The result for the modified dice, which are matched and laid out first. -/
def DieSpec.conclude (spec : DieSpec (Rolling Result)) (count : Result) (sides : Sides Result)
    (rolls : List RolledDie) : Rolling Result :=
  match spec.matching with
  | none => return .dice count sides (spec.arrange rolls)
  | some matching => do
    let faces ← matching.faces rolls
    let rolls := spec.arrange (markMatched faces rolls)
    return if matching.counts then .matchedDice count sides rolls faces.length
      else .dice count sides rolls

/-- Rolls the dice of one specification. -/
def DieSpec.roll (spec : DieSpec (Rolling Result)) : Rolling Result := do
  let count ← spec.count
  let n ← diceCount count.value
  let (sides, kind) ← spec.sides.resolve
  spec.conclude count sides (← spec.rollDice kind n)

/-! ## Groups -/

/-- Applies the modifiers of a group to the pool of its only member, and gives
the member the sum of the pool for a value. -/
def rollPool (member : Result) (mods : List (Modifier (Rolling Result))) : Rolling Result := do
  let dice ← mods.foldlM Modifier.applyToItems member.pool
  let dice := settle mods dice
  return setValue (sumTotals dice) (member.refill dice).1.refresh

/-- Rolls a group. Modifiers look through a group of one member into its dice,
if the member has a pool. -/
def rollGroup (members : List (Rolling Result)) (mods : List (Modifier (Rolling Result))) :
    Rolling Result := do
  let members := numbered (← members.mapM id)
  match mods, members with
  | [], _ => return .group members
  | _, [member] =>
    if member.isPooled then return .group [← rollPool member mods]
    else return .group (settle mods (← mods.foldlM Modifier.applyToItems members))
  | _, _ => return .group (settle mods (← mods.foldlM Modifier.applyToItems members))

/-! ## Chains -/

/-- The operator on two values. Dividing by zero is refused. -/
def ArithOp.rollApply (op : ArithOp) (left right : Number) : Rolling Number :=
  match op with
  | .div => if right.same .zero then Rolling.refuse .zeroDivision else return left / right
  | .rem => if right.same .zero then Rolling.refuse .zeroModulo else return left % right
  | op => return op.apply left right

/-- Rolls the terms after the first, each before its operator is applied. -/
def rollLinks {ω : Type} (apply : ω → Number → Number → Rolling Number) :
    Nat → Number → List (Link ω (Rolling Result)) → Rolling (Number × List Result)
  | _, value, [] => return (value, [])
  | order, value, link :: rest => do
    let term := setOrder order (← link.term)
    let value ← apply link.op value term.value
    let (value, terms) ← rollLinks apply (order + 1) value rest
    return (value, term :: terms)

/-- Rolls a chain of terms: its value, and the terms. -/
def rollChain {ω : Type} (apply : ω → Number → Number → Rolling Number)
    (head : Rolling Result) (tail : List (Link ω (Rolling Result))) :
    Rolling (Number × List Result) := do
  let head ← head
  let (value, terms) ← rollLinks apply 0 head.value tail
  return (value, head :: terms)

/-! ## Trees -/

/-- Rolls one layer of an expression. -/
def Form.roll : Form (Rolling Result) → Rolling Result
  | .number value => return .number value
  | .inline expr => expr
  | .die spec => spec.roll
  | .group first rest mods => rollGroup (first :: rest) mods
  | .sum head tail => do
    let (value, terms) ← rollChain (fun op x y => return op.apply x y) head tail
    return .sum value terms (tail.map Link.op)
  | .chain head tail => do
    let (value, terms) ← rollChain ArithOp.rollApply head tail
    return .chain value terms (tail.map Link.op)
  | .function fn arg => return .function fn (← arg)

/-- The result with a label on it, if there is one to put on it. -/
def Result.relabel (label : Option String) (r : Result) : Result :=
  match label with
  | some label => setLabel label r
  | none => r

/-- Rolls one layer. Its label, if it has one, goes onto the result. -/
def Form.rollLabelled (form : Form (Rolling Result)) (label : Option String) : Rolling Result :=
  return (← form.roll).relabel label

/-- Rolls an expression. -/
def Node.roll : Node → Rolling Result :=
  Node.fold Form.rollLabelled (Rolling.refuse .unsupportedNode)

theorem Node.roll_term (form : Form Node) (label : Option String) :
    (Node.term form label).roll = (form.map Node.roll).rollLabelled label :=
  Node.fold_term ..

theorem Node.roll_unsupported : Node.unsupported.roll = Rolling.refuse .unsupportedNode :=
  Node.fold_unsupported ..

end DiceNotation
