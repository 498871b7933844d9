import DiceNotation.Notation.Node
import DiceNotation.Grammar.Cursor

/-!
# Numbers and bracketed expressions

The parts of the grammar that stand on their own: number literals, expressions
in parentheses and in double brackets, and the operands of modifiers, which are
one of these and have to touch the modifier. `nested` reads the expression
inside brackets, wherever brackets may stand.
-/

namespace DiceNotation

namespace Parser

/-! ## Numbers -/

/-- The integer that a token's digits write, if an `Int64` can hold it. -/
def integerValue? (text : String) : Option Int64 :=
  let n := Double.readDigits 0 text.toList
  if n ≤ Number.highest then some (Int64.ofNat n) else none

/-- A number literal with an optional minus. The sign is put on the value that
the digits have without it. -/
def number : Parser Node := do
  let negative ← accept .minus
  match (← get).rest with
  | t :: _ =>
    match t.kind with
    | .integer =>
      match integerValue? t.text with
      | some n =>
        skip
        return .int (if negative then -n else n)
      | none => refuse .invalidNumber
    | .decimal =>
      match Double.ofText? t.text with
      | some x =>
        skip
        return .number (.float (if negative then -x else x))
      | none => refuse .invalidNumber
    | _ => unexpected [.integer, .decimal]
  | [] => unexpected [.integer, .decimal]

/-! ## Brackets -/

section Nested

variable (nested : Parser Node)

/-- An expression in parentheses, which leave no trace. -/
def parenthesized : Parser Node := do
  expect .leftParen
  let node ← nested
  expect .rightParen
  return node

/-- An expression in double brackets. -/
def inline : Parser Node := do
  expect .inlineOpen
  let node ← nested
  expect .inlineClose
  return .inline node

/-! ## Operands -/

/-- The tokens that an operand can start with. -/
def operandStart : List Token.Kind := [.integer, .decimal, .minus, .leftParen, .inlineOpen]

/-- The operand of a modifier. -/
def operand : Parser Node := do
  match ← touching with
  | some .integer | some .decimal | some .minus => number
  | some .leftParen => parenthesized nested
  | some .inlineOpen => inline nested
  | _ => unexpected operandStart

/-- An operand, if one can start here. -/
def operand? : Parser (Option Node) := do
  match ← touching with
  | some kind => if kind ∈ operandStart then some <$> operand nested else return none
  | none => return none

/-- The comparison that a kind of token stands for. -/
def comparisonOf? : Token.Kind → Option Comparison
  | .greater => some .atLeast
  | .less => some .atMost
  | .equal => some .equal
  | _ => none

/-- A touching comparison sign, if there is one. -/
def comparison? : Parser (Option Comparison) := do
  match (← touching).bind comparisonOf? with
  | some compare =>
    skip
    return some compare
  | none => return none

/-- A comparison and its target; without a sign the target is to be met
exactly. -/
def condition : Parser (Condition Node) := do
  let compare := (← comparison?).getD .equal
  return ⟨compare, ← operand nested⟩

/-- The trigger of a re-roll: a condition, or nothing at all. -/
def trigger? : Parser (Option (Condition Node)) := do
  match ← comparison? with
  | some compare => return some ⟨compare, ← operand nested⟩
  | none => return (← operand? nested).map fun target => ⟨.equal, target⟩

end Nested

end Parser

end DiceNotation
