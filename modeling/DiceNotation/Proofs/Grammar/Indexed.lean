import DiceNotation.Grammar.Expression
import DiceNotation.Proofs.Token.Pieces

/-!
# Reading by index

The grammar once more, for a reader that has the whole text and the list of its tokens and
keeps a position in that list. It looks at tokens by their index and cuts pieces out of the
text by their bytes; where there is no such token or no such piece, its run breaks off
(`Fault.outside`). It has no bound on its loops and brackets but one that only guards
against running forever (`Fault.endless`), and it checks that what is read takes a token
(`Fault.idle`).

What it does is counted: a step is the call of a rule of the grammar, a turn of a loop, a look
at a token, or taking one. A run that is broken off keeps its place and its count.
-/

namespace DiceNotation

open Token (Kind)

/-! ## Runs -/

/-- A text with its tokens. -/
structure Source where
  text : String
  tokens : List Token

/-- The text with the tokens that it has. -/
def Source.of (s : String) : Source := ⟨s, tokenize s⟩

/-- How far a run has come. -/
structure Walk where
  /-- The index of the next token. -/
  position : Nat
  steps : Nat

/-- Why a run breaks off. -/
inductive Fault where
  | refused (e : ParseError)
  /-- A token or a piece of the text was used that is not there. -/
  | outside
  /-- A loop or the brackets did not come to an end. -/
  | endless
  /-- A node or a modifier was read, and no token taken for it. -/
  | idle

/-- A reader by index. -/
abbrev Indexed := ReaderT Source (EStateM Fault Walk)

namespace Indexed

variable {α σ ω : Type}

/-- What comes of a run from a position of the text, after so many steps. -/
def runAt (p : Indexed α) (s : String) (i steps : Nat) : EStateM.Result Fault Walk α :=
  (p.run (.of s)).run ⟨i, steps⟩

/-- Counts a step. -/
def tick : Indexed Unit := modify fun w => { w with steps := w.steps + 1 }

/-- The token of an index, which has to be there. -/
def tokenAt (i : Nat) : Indexed Token := do (← read).tokens[i]?.getDM (throw .outside)

/-- The piece of a string between two bytes, which has to be there. -/
def pieceOf (start stop : Nat) (s : String) : Indexed String :=
  (Text.piece? start stop s).getDM (throw .outside)

/-- The piece of the text between two bytes. -/
def slice (start stop : Nat) : Indexed String := do pieceOf start stop (← read).text

/-- The next token, if there is one. -/
def here : Indexed (Option Token) := do return (← read).tokens[(← get).position]?

/-- The kind of the next token, wherever it stands. -/
def peek : Indexed (Option Kind) := do
  tick
  return (← here).map Token.kind

/-- The kind of the next token, if it touches the one before. -/
def touching : Indexed (Option Kind) := do
  tick
  match (← get).position with
  | 0 => return none
  | i + 1 =>
    let last ← tokenAt i
    return ((← here).filter fun t => t.start == last.stop).map Token.kind

/-- Takes the next token, if there is one. -/
def advance : Indexed (Option Token) := do
  tick
  match ← here with
  | some t =>
    modify fun w => { w with position := w.position + 1 }
    return some t
  | none => return none

/-- A call that has to take a token if it gives something. -/
def taking (p : Indexed α) : Indexed α := do
  tick
  let start := (← get).position
  let a ← p
  if (← get).position = start then throw .idle else return a

/-- Refuses what stands between two bytes. -/
def refuse (cause : ParseError.Cause) (start stop : Nat) : Indexed α := do
  throw (.refused ⟨cause, start, stop, ← slice start stop⟩)

/-- Refuses the next token, which has to be there, for a cause of its own. -/
def refuseNext (cause : ParseError.Cause) : Indexed α := do
  let t ← tokenAt (← get).position
  refuse cause t.start t.stop

/-- Takes the next token and refuses it, or the end, in favour of `expected`. -/
def unexpected (expected : List Kind) : Indexed α := do
  match ← advance with
  | none =>
    let finish := (← read).text.utf8ByteSize
    refuse (.unexpectedToken none expected) finish finish
  | some t =>
    if t.kind = .error then refuse (.unexpectedString expected) t.start t.stop
    else refuse (.unexpectedToken (some t.kind) expected) t.start t.stop

/-- Takes the next token, which has to be of the given kind. -/
def expect (kind : Kind) : Indexed Token := do
  if (← peek) = some kind then
    match ← advance with
    | some t => return t
    | none => unexpected [kind]
  else unexpected [kind]

/-- Goes on from a value as long as a step has another one. It may take one turn more than
there are tokens left. -/
def iterate (step : σ → Indexed (Option σ)) (s : σ) : Indexed σ := do
  go ((← read).tokens.length - (← get).position + 1) s
where
  go : Nat → σ → Indexed σ
    | 0, _ => throw .endless
    | n + 1, s => do
      tick
      match ← step s with
      | none => return s
      | some s' => go n s'

/-- Collects what a step gives as long as it gives something. -/
def many (step : Indexed (Option α)) : Indexed (List α) :=
  List.reverse <$> iterate (fun l => Option.map (· :: l) <$> step) []

/-! ## Numbers and operands -/

/-- The number that a token's digits write, if they write one. -/
def literal (value? : String → Option Node) (t : Token) : Indexed Node := do
  match value? (← slice t.start t.stop) with
  | some node => return node
  | none => refuse .invalidNumber t.start t.stop

/-- The digits of a number, with the sign that was read before them. -/
def magnitude (negative : Bool) : Indexed Node := do
  let kind ← peek
  match ← if kind = some .integer ∨ kind = some .decimal then advance else pure none with
  | none => unexpected [.integer, .decimal]
  | some t =>
    if t.kind = .integer then
      literal (fun digits => (Parser.integerValue? digits).map fun n =>
        .int (if negative then -n else n)) t
    else
      literal (fun digits => (Double.ofText? digits).map fun x =>
        .number (.float (if negative then -x else x))) t

/-- A number literal with an optional minus. -/
def number : Indexed Node := taking do
  if (← peek) = some .minus then
    let _ ← advance
    magnitude true
  else magnitude false

/-- A touching comparison sign, if there is one. -/
def comparison? : Indexed (Option Comparison) := do
  tick
  match (← touching).bind Parser.comparisonOf? with
  | some compare =>
    let _ ← advance
    return some compare
  | none => return none

/-- The end of the ranking, if one is named. -/
def extreme? : Indexed (Option Extreme) := do
  match (← touching).bind Parser.extremeOf? with
  | some extreme =>
    let _ ← advance
    return some extreme
  | none => return none

/-- How many of a face a match takes, two unless it is written. -/
def least : Indexed Node := do
  if (← touching) = some .integer then number else pure (.int 2)

section Nested

variable (nested : Indexed Node)

/-- An expression in parentheses. -/
def parenthesized : Indexed Node := taking do
  let _ ← expect .leftParen
  let node ← nested
  let _ ← expect .rightParen
  return node

/-- An expression in double brackets. -/
def inline : Indexed Node := taking do
  let _ ← expect .inlineOpen
  let node ← nested
  let _ ← expect .inlineClose
  return .inline node

/-- The operand of a modifier. -/
def operand : Indexed Node := taking do
  match ← touching with
  | some .integer | some .decimal | some .minus => number
  | some .leftParen => parenthesized nested
  | some .inlineOpen => inline nested
  | _ => unexpected Parser.operandStart

/-- An operand, if one can start here. -/
def operand? : Indexed (Option Node) := do
  match ← touching with
  | some kind => if kind ∈ Parser.operandStart then some <$> operand nested else return none
  | none => return none

/-- A comparison, if there is one, and its target. -/
def condition : Indexed (Condition Node) := taking do
  let compare ← comparison?
  return ⟨compare.getD .equal, ← operand nested⟩

/-- The trigger of a re-roll: a condition, or nothing at all. -/
def trigger? : Indexed (Option (Condition Node)) := do
  tick
  match ← comparison? with
  | some compare => return some ⟨compare, ← operand nested⟩
  | none => return (← operand? nested).map fun target => ⟨.equal, target⟩

/-! ## Modifiers -/

/-- Keep or drop. -/
def selection : Indexed (Modifier Node) := taking do
  let first ← advance
  let extreme ← extreme?
  let count ← operand? nested
  return .select (if first.map Token.kind = some .keep then .keep else .drop) extreme
    (count.getD (.int 1))

/-- The condition of a match, if a comparison sign follows. -/
def matchCondition? : Indexed (Option (Condition Node)) := do
  match ← comparison? with
  | some compare => return some ⟨compare, ← operand nested⟩
  | none => return none

/-- A match. -/
def matching : Indexed (Matching Node) := taking do
  let first ← advance
  let least ← least
  let condition ← matchCondition? nested
  return ⟨least, first.map Token.kind = some .matchCount, condition.map Condition.compare,
    condition.map Condition.target⟩

/-- One more modifier of a die specification, if one follows. -/
def dieSuffix (spec : DieSpec Node) : Indexed (Option (DieSpec Node)) := do
  match ← touching with
  | none => return none
  | some kind =>
    if kind = .keep ∨ kind = .d then
      return some { spec with mods := spec.mods ++ [← selection nested] }
    else if let some mechanic := Parser.mechanicOf? kind then
      let _ ← advance
      return some { spec with mods := spec.mods ++ [.again mechanic (← trigger? nested)] }
    else if (Parser.comparisonOf? kind).isSome then
      return some { spec with
        targets := spec.targets ++ [.test .success (← condition nested)] }
    else if let some meaning := Parser.testOf? kind then
      let _ ← advance
      return some { spec with
        targets := spec.targets ++ [.test meaning (← condition nested)] }
    else if kind = .match ∨ kind = .matchCount then
      if spec.matching.isSome then refuseNext (.duplicateModifier kind)
      else return some { spec with matching := some (← matching nested) }
    else if let some order := Parser.sortOf? kind then
      if spec.sort.isSome then refuseNext (.duplicateModifier kind)
      else
        let _ ← advance
        return some { spec with sort := some order }
    else return none

/-- One more modifier of a group, if one follows. -/
def groupSuffix : Indexed (Option (Modifier Node)) := do
  match ← touching with
  | none => return none
  | some kind =>
    if kind = .keep ∨ kind = .d then some <$> selection nested
    else if (Parser.comparisonOf? kind).isSome then
      return some (.test .success (← condition nested))
    else if kind = .failure then
      let _ ← advance
      return some (.test .failure (← condition nested))
    else if kind ∈ Parser.diceOnly then refuseNext (.invalidGroupModifier kind)
    else return none

/-! ## Dice and groups -/

/-- What the dice are rolled against. -/
def sides : Indexed (Sides Node) := do
  match ← touching with
  | some .integer => return .numeric (← number)
  | some .fate =>
    let _ ← advance
    return .fate
  | some .leftParen => return .numeric (← parenthesized nested)
  | some .inlineOpen => return .numeric (← inline nested)
  | _ => unexpected [.integer, .fate, .leftParen, .inlineOpen]

/-- The modifiers of a die specification. -/
def dieSuffixes (spec : DieSpec Node) : Indexed (DieSpec Node) := do
  tick
  iterate (dieSuffix nested) spec

/-- Dice, from their `d` on. -/
def dice (count : Node) : Indexed Node := taking do
  let _ ← expect .d
  let sides ← sides nested
  let spec ← dieSuffixes nested { sides, count }
  return .term (.die spec) none

/-- An expression that counts dice, if a `d` touches it. -/
def countOrDice (count : Node) : Indexed Node := do
  tick
  if (← touching) = some .d then dice nested count else return count

/-- One more member of a group, if a comma follows. -/
def member? : Indexed (Option Node) := do
  if (← peek) = some .comma then
    let _ ← advance
    some <$> nested
  else return none

/-- A group, from its opening brace on. -/
def group : Indexed Node := taking do
  let _ ← expect .leftBrace
  let first ← nested
  let rest ← many (member? nested)
  let _ ← expect .rightBrace
  let mods ← many (groupSuffix nested)
  return .term (.group first rest mods) none

end Nested

/-! ## Expressions -/

/-- The inside of a label. -/
def label : Indexed String := taking do
  let t ← expect .label
  let text ← slice t.start t.stop
  pieceOf 1 (text.utf8ByteSize - 1) text

/-- A label, if one follows. -/
def label? : Indexed (Option String) := do
  if (← peek) = some .label then some <$> label else return none

/-- An operator and the operand to its right, if an operator follows. -/
def link? (opOf? : Kind → Option ω) (operand : Indexed Node) : Indexed (Option (Link ω Node)) := do
  match (← peek).bind opOf? with
  | some op =>
    let _ ← advance
    return some ⟨op, ← operand⟩
  | none => return none

section Nested

variable (nested : Indexed Node)

/-- A call of a function. -/
def function : Indexed Node := taking do
  match (← advance).bind fun t => Parser.functionOf? t.kind with
  | some fn => return .function fn (← parenthesized nested)
  | none => unexpected [.floor, .ceil, .round, .abs]

/-- A term without its labels. -/
def bareTerm : Indexed Node := do
  match ← peek with
  | some .integer => countOrDice nested (← number)
  | some .decimal | some .minus =>
    let node ← number
    if (← touching) = some .d then unexpected [.plus, .minus] else return node
  | some .leftParen => countOrDice nested (← parenthesized nested)
  | some .inlineOpen => countOrDice nested (← inline nested)
  | some .leftBrace => group nested
  | some .d => dice nested (.int 1)
  | some kind =>
    if (Parser.functionOf? kind).isSome then function nested else unexpected Parser.termStart
  | none => unexpected Parser.termStart

/-- A term and its labels. -/
def term : Indexed Node := taking do
  let node ← bareTerm nested
  match ← many label? with
  | [] => return node
  | labels => return node.withLabel (" ".intercalate labels)

def power : Indexed Node := taking do
  let head ← term nested
  return .chain head (← many (link? Parser.powerOpOf? (term nested)))

def product : Indexed Node := taking do
  let head ← power nested
  return .chain head (← many (link? Parser.factorOpOf? (power nested)))

def sum : Indexed Node := taking do
  let head ← product nested
  return .sum head (← many (link? Parser.sumOpOf? (product nested)))

end Nested

/-- An expression. With brackets as deep as `depth`, its run breaks off as endless. -/
def expression : (depth : Nat) → Indexed Node
  | 0 => throw .endless
  | depth + 1 => sum (expression depth)

/-- A whole text: an expression, and what is left as its label. -/
def text (depth : Nat) : Indexed Node := do
  let node ← expression depth
  match ← here with
  | some t =>
    let left ← slice t.start (← read).text.utf8ByteSize
    return node.extendLabel (String.ofList (Text.trim left.toList))
  | none => return node

end Indexed

end DiceNotation
