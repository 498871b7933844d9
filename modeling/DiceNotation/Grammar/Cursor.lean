import DiceNotation.Grammar.Error

/-!
# Going through the tokens

A parser reads from a `Cursor`: the tokens still to come, and where the last
one taken ended, since a modifier has to touch what it modifies. Repetition
(`Parser.iterate`, `Parser.many`) is bounded by the number of tokens to come;
a step that goes on has taken one, so the bound never cuts a repetition short.
-/

namespace DiceNotation

/-- A place between the tokens of a text. -/
structure Cursor where
  /-- The byte after the last token taken; none before the first one. -/
  previous : Option Nat
  rest : List Token
  /-- The byte after the whole text. -/
  finish : Nat

namespace Cursor

/-- The start of a text of so many bytes. -/
def start (tokens : List Token) (bytes : Nat) : Cursor := ⟨none, tokens, bytes⟩

/-- The next token, if it begins where the last one ended. -/
def touching? (c : Cursor) : Option Token :=
  c.rest.head?.filter fun t => some t.start == c.previous

/-- Past the next token, if there is one. -/
def advance (c : Cursor) : Cursor :=
  match c.rest with
  | [] => c
  | t :: rest => { c with previous := some t.stop, rest := rest }

/-- The error that one of `expected` was expected next. -/
def unexpected (c : Cursor) (expected : List Token.Kind) : ParseError :=
  match c.rest with
  | [] => ⟨.unexpectedToken none expected, c.finish, c.finish, ""⟩
  | t :: _ =>
    if t.kind = .error then .onToken (.unexpectedString expected) t
    else .onToken (.unexpectedToken (some t.kind) expected) t

end Cursor

/-- A reader of tokens that may refuse them. -/
abbrev Parser := StateT Cursor (Except ParseError)

namespace Parser

variable {α σ : Type}

/-- The kind of the next token, wherever it stands. -/
def peek : Parser (Option Token.Kind) := return (← get).rest.head?.map Token.kind

/-- The kind of the next token, if it touches the one before. -/
def touching : Parser (Option Token.Kind) := return (← get).touching?.map Token.kind

/-- Takes the next token. -/
def skip : Parser Unit := modify Cursor.advance

/-- Refuses the next token, or the end, in favour of `expected`. -/
def unexpected (expected : List Token.Kind) : Parser α := do throw ((← get).unexpected expected)

/-- Refuses the next token for a cause of its own. -/
def refuse (cause : ParseError.Cause) : Parser α := do
  match (← get).rest with
  | t :: _ => throw (.onToken cause t)
  | [] => unexpected []

/-- Takes the next token if it is of the given kind. -/
def expect (kind : Token.Kind) : Parser Unit := do
  if (← peek) = some kind then skip else unexpected [kind]

/-- Takes the next token if it is of the given kind, and tells whether. -/
def accept (kind : Token.Kind) : Parser Bool := do
  if (← peek) = some kind then
    skip
    return true
  else return false

/-- Goes on from a value as long as a step has another one. -/
def iterate (step : σ → Parser (Option σ)) (s : σ) : Parser σ := do
  go (← get).rest.length s
where
  go : Nat → σ → Parser σ
    | 0, s => pure s
    | n + 1, s => do
      match ← step s with
      | none => pure s
      | some s' => go n s'

/-- Collects what a step gives as long as it gives something. -/
def many (step : Parser (Option α)) : Parser (List α) := do
  go (← get).rest.length
where
  go : Nat → Parser (List α)
    | 0 => pure []
    | n + 1 => do
      match ← step with
      | none => pure []
      | some a => return a :: (← go n)

end Parser

end DiceNotation
