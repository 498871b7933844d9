import DiceNotation.Token

/-!
# Text into tokens

At each place the longest piece that any pattern matches is the next token
(`longest`), so `!!` is one token and not two. Spaces, tabs and line ends
between tokens are skipped. What no pattern matches is an error token of one
character; an unclosed bracket takes the characters of its label along.
-/

namespace DiceNotation

namespace Token

/-- The characters that may stand between tokens. -/
def isGap (c : Char) : Bool := c == ' ' || c == '\t' || c == '\r' || c == '\n'

/-- The characters that a label may hold. -/
def isLabelChar (c : Char) : Bool := c != '[' && c != ']'

/-- How many characters the pattern matches at the start of a text; none if it
does not match there. -/
def Pattern.extent : Pattern → List Char → Nat
  | .word spelling, cs =>
    if spelling.toList.isPrefixOf cs then spelling.toList.length else 0
  | .digits, cs => (cs.takeWhile Char.isDigit).length
  | .pointed, cs =>
    let whole := (cs.takeWhile Char.isDigit).length
    match cs.drop whole with
    | '.' :: rest =>
      let fraction := (rest.takeWhile Char.isDigit).length
      if whole = 0 ∨ fraction = 0 then 0 else whole + 1 + fraction
    | _ => 0
  | .bracketed, cs =>
    match cs with
    | '[' :: rest =>
      let inside := (rest.takeWhile isLabelChar).length
      if inside = 0 then 0
      else if rest[inside]? = some ']' then inside + 2 else 0
    | _ => 0

/-- How many characters of the text a kind takes. -/
def Kind.extent (k : Kind) (cs : List Char) : Nat :=
  match k.pattern? with
  | some p => p.extent cs
  | none => 0

/-- The kind that takes most of the text, if any takes some of it. -/
def longest (cs : List Char) : Option Kind :=
  Kind.all.foldl (fun best k =>
    let reached := match best with
      | some b => b.extent cs
      | none => 0
    if reached < k.extent cs then some k else best) none

/-- How many characters an error token takes where nothing matches. -/
def errorExtent : List Char → Nat
  | '[' :: rest => 1 + (rest.takeWhile isLabelChar).length
  | _ => 1

/-- The kind of the next token and the number of its characters. -/
def next (cs : List Char) : Kind × Nat :=
  match longest cs with
  | some k => (k, k.extent cs)
  | none => (.error, errorExtent cs)

/-- The tokens of a text that starts at byte `start`. Every step takes a
character at least, so the length of the text is enough for `steps`. -/
def scan : (steps : Nat) → (start : Nat) → List Char → List Token
  | 0, _, _ => []
  | _ + 1, _, [] => []
  | steps + 1, start, c :: cs =>
    if isGap c then scan steps (start + c.utf8Size) cs
    else
      let (kind, extent) := next (c :: cs)
      let text := String.ofList ((c :: cs).take extent)
      ⟨kind, start, text⟩ :: scan steps (start + text.utf8ByteSize) ((c :: cs).drop extent)

end Token

/-- The tokens of a text. -/
def tokenize (s : String) : List Token := Token.scan s.toList.length 0 s.toList

end DiceNotation
