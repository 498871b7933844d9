import DiceNotation.Grammar.Dice
import DiceNotation.Text.Blank
import DiceNotation.Token.Scan

/-!
# Expressions

Terms are joined on three levels: `**` binds before `*`, `/` and `%`, these
before `+` and `-`, all from left to right. A term is a number, dice, a group,
a bracketed expression or a function call, with labels after it.

The grammar is recursive through brackets only. `expression` ties that knot: an
expression of a given depth reads in its brackets expressions of one depth
less. Every bracket is a token, so the number of tokens is depth enough.

`parse` reads a whole text. What is left after a complete expression becomes
part of its label.
-/

namespace DiceNotation

namespace Parser

/-- The function that a kind of token names. -/
def functionOf? : Token.Kind → Option NumFn
  | .floor => some .floor
  | .ceil => some .ceil
  | .round => some .round
  | .abs => some .abs
  | _ => none

/-- The operator between terms that a kind of token stands for. -/
def sumOpOf? : Token.Kind → Option SumOp
  | .plus => some .add
  | .minus => some .sub
  | _ => none

/-- The operator between factors that a kind of token stands for. -/
def factorOpOf? : Token.Kind → Option ArithOp
  | .star => some .mul
  | .slash => some .div
  | .percent => some .rem
  | _ => none

/-- The operator of a power that a kind of token stands for. -/
def powerOpOf? : Token.Kind → Option ArithOp
  | .starStar => some .pow
  | _ => none

/-- The tokens that a term can start with, as messages list them. -/
def termStart : List Token.Kind := [
  .integer, .decimal, .minus, .leftParen, .inlineOpen, .leftBrace, .d, .floor, .ceil,
  .round, .abs]

/-- A label, without its brackets, if one follows. -/
def label? : Parser (Option String) := do
  match (← get).rest with
  | t :: _ =>
    if t.kind = .label then
      skip
      return some (String.ofList t.text.toList.tail.dropLast)
    else return none
  | [] => return none

/-- An operator and the operand to its right, if an operator follows. -/
def link? {ω : Type} (opOf? : Token.Kind → Option ω) (operand : Parser Node) :
    Parser (Option (Link ω Node)) := do
  match (← peek).bind opOf? with
  | some op =>
    skip
    return some ⟨op, ← operand⟩
  | none => return none

section Nested

variable (nested : Parser Node)

/-- A term without its labels. Only a plain integer and a bracketed expression
can count dice. -/
def bareTerm : Parser Node := do
  match ← peek with
  | some .integer => countOrDice nested (← number)
  | some .decimal | some .minus =>
    let node ← number
    if (← touching) = some .d then unexpected [.plus, .minus] else return node
  | some .leftParen => countOrDice nested (← parenthesized nested)
  | some .inlineOpen => countOrDice nested (← inline nested)
  | some .leftBrace => group nested
  | some .d => dice nested (.int 1)
  | some kind =>
    match functionOf? kind with
    | some fn =>
      skip
      return .function fn (← parenthesized nested)
    | none => unexpected termStart
  | none => unexpected termStart

/-- A term; labels written after it replace one that it has, joined by spaces. -/
def term : Parser Node := do
  let node ← bareTerm nested
  match ← many label? with
  | [] => return node
  | labels => return node.withLabel (" ".intercalate labels)

def power : Parser Node := do
  let head ← term nested
  return .chain head (← many (link? powerOpOf? (term nested)))

def product : Parser Node := do
  let head ← power nested
  return .chain head (← many (link? factorOpOf? (power nested)))

def sum : Parser Node := do
  let head ← product nested
  return .sum head (← many (link? sumOpOf? (product nested)))

end Nested

/-- An expression with brackets at most `depth` deep. At depth zero no token is
left, and the end is what is refused. -/
def expression : (depth : Nat) → Parser Node
  | 0 => unexpected termStart
  | depth + 1 => sum (expression depth)

end Parser

/-! ## Whole texts -/

/-- The text from a byte on, if a character starts there. -/
def Text.dropBytes : Nat → List Char → List Char
  | 0, cs => cs
  | _, [] => []
  | n, c :: cs => dropBytes (n - c.utf8Size) cs

/-- The node with more text after its label. -/
def Node.extendLabel (text : String) (node : Node) : Node :=
  match node.label with
  | some label => node.withLabel (label ++ " " ++ text)
  | none => node.withLabel text

/-- Reads an expression. Text after it is its label, without outer blanks. -/
def parse (s : String) : Except ParseError Node := do
  let tokens := tokenize s
  let (node, after) ← (Parser.expression tokens.length).run (.start tokens s.utf8ByteSize)
  match after.rest with
  | [] => return node
  | t :: _ =>
    return node.extendLabel (String.ofList (Text.trim (Text.dropBytes t.start s.toList)))

end DiceNotation
