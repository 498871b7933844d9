import DiceNotation.Grammar.Operand

/-!
# Dice and groups

Dice are a count, `d`, the sides, and modifiers; each touches the one before.
A group is a list of expressions in braces, and takes only the modifiers that
select and count. Modifiers are read as long as one follows, in any order; a
match and a sort may be written once.
-/

namespace DiceNotation

namespace Parser

/-! ## Modifiers by their first token -/

/-- The way of rolling again that a kind of token stands for. -/
def mechanicOf? : Token.Kind → Option Mechanic
  | .explode => some .explode
  | .compound => some .compound
  | .penetrate => some .penetrate
  | .reroll => some .reroll
  | .rerollOnce => some .rerollOnce
  | _ => none

/-- The test that a kind of token announces in front of a condition. -/
def testOf? : Token.Kind → Option Test
  | .failure => some .failure
  | .critSuccess => some .crit
  | .critFailure => some .critfail
  | _ => none

/-- The order that a kind of token asks for. -/
def sortOf? : Token.Kind → Option SortOrder
  | .sort | .sortAsc => some .ascending
  | .sortDesc => some .descending
  | _ => none

/-- The end of the ranking that a kind of token names. -/
def extremeOf? : Token.Kind → Option Extreme
  | .high => some .high
  | .low => some .low
  | _ => none

/-- The kinds of token that start a modifier of dice which groups do not have. -/
def diceOnly : List Token.Kind := [
  .explode, .compound, .penetrate, .reroll, .rerollOnce, .critSuccess, .critFailure,
  .match, .matchCount, .sort, .sortAsc, .sortDesc]

section Nested

variable (nested : Parser Node)

/-- Keep or drop: the end to take from, then how many, one unless written. -/
def selection : Parser (Modifier Node) := do
  let keeps ← accept .keep
  unless keeps do skip
  let extreme := (← touching).bind extremeOf?
  if extreme.isSome then skip
  let count ← operand? nested
  return .select (if keeps then .keep else .drop) extreme (count.getD (.int 1))

/-- The condition of a match, if a comparison sign follows. -/
def matchCondition? : Parser (Option (Condition Node)) := do
  match ← comparison? with
  | some compare => return some ⟨compare, ← operand nested⟩
  | none => return none

/-- A match: how many of a face it takes, two unless written, and which faces. -/
def matching : Parser (Matching Node) := do
  let counts := !(← accept .match)
  if counts then skip
  let least ← if (← touching) = some .integer then number else pure (.int 2)
  let condition ← matchCondition? nested
  return ⟨least, counts, condition.map Condition.compare, condition.map Condition.target⟩

/-! ## Dice -/

/-- One more modifier of a die specification, if one follows. -/
def dieSuffix (spec : DieSpec Node) : Parser (Option (DieSpec Node)) := do
  match ← touching with
  | none => return none
  | some kind =>
    if kind = .keep ∨ kind = .d then
      return some { spec with mods := spec.mods ++ [← selection nested] }
    else if let some mechanic := mechanicOf? kind then
      skip
      return some { spec with mods := spec.mods ++ [.again mechanic (← trigger? nested)] }
    else if (comparisonOf? kind).isSome then
      return some { spec with
        targets := spec.targets ++ [.test .success (← condition nested)] }
    else if let some meaning := testOf? kind then
      skip
      return some { spec with
        targets := spec.targets ++ [.test meaning (← condition nested)] }
    else if kind = .match ∨ kind = .matchCount then
      if spec.matching.isSome then refuse (.duplicateModifier kind)
      else return some { spec with matching := some (← matching nested) }
    else if let some order := sortOf? kind then
      if spec.sort.isSome then refuse (.duplicateModifier kind)
      else
        skip
        return some { spec with sort := some order }
    else return none

/-- What the dice are rolled against. -/
def sides : Parser (Sides Node) := do
  match ← touching with
  | some .integer => return .numeric (← number)
  | some .fate =>
    skip
    return .fate
  | some .leftParen => return .numeric (← parenthesized nested)
  | some .inlineOpen => return .numeric (← inline nested)
  | _ => unexpected [.integer, .fate, .leftParen, .inlineOpen]

/-- Dice, from their `d` on. -/
def dice (count : Node) : Parser Node := do
  expect .d
  let spec ← iterate (dieSuffix nested) { sides := ← sides nested, count := count }
  return .term (.die spec) none

/-- An expression that counts dice, if a `d` touches it. -/
def countOrDice (count : Node) : Parser Node := do
  if (← touching) = some .d then dice nested count else return count

/-! ## Groups -/

/-- One more modifier of a group, if one follows. -/
def groupSuffix : Parser (Option (Modifier Node)) := do
  match ← touching with
  | none => return none
  | some kind =>
    if kind = .keep ∨ kind = .d then some <$> selection nested
    else if (comparisonOf? kind).isSome then return some (.test .success (← condition nested))
    else if kind = .failure then
      skip
      return some (.test .failure (← condition nested))
    else if kind ∈ diceOnly then refuse (.invalidGroupModifier kind)
    else return none

/-- One more member of a group, if a comma follows. -/
def member? : Parser (Option Node) := do
  if ← accept .comma then some <$> nested else return none

/-- A group, from its opening brace on. -/
def group : Parser Node := do
  expect .leftBrace
  let first ← nested
  let rest ← many (member? nested)
  expect .rightBrace
  let mods ← many (groupSuffix nested)
  return .term (.group first rest mods) none

end Nested

end Parser

end DiceNotation
