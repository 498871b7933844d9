import DiceNotation.Roll.Result

/-!
# Results as text

A result is written much as its notation was, with the faces that came up.
The `markdown` style strikes out what does not count, once around each part
that a modifier took out, and sets critical successes bold and critical
failures italic. The rendering passes down whether it is inside a struck part,
so no mark is nested in another.
-/

namespace DiceNotation

open Counted

/-- How much of a result the text shows. -/
inductive Style where
  | simple
  | markdown
deriving DecidableEq, Repr

namespace Style

/-- A text with the label of its node after it. -/
def withLabel (label : Option String) (text : String) : String :=
  match label with
  | some label => text ++ " [" ++ label ++ "]"
  | none => text

/-- Something is struck out here: it does not count, and nothing around it is
struck out already. -/
def strikes (style : Style) (struck valid : Bool) : Bool :=
  style = .markdown && !valid && !struck

/-- The mark around the face of a die. -/
def critical (style : Style) (mark : Option Critical) (text : String) : String :=
  match style, mark with
  | .markdown, some .success => "**" ++ text ++ "**"
  | .markdown, some .failure => "*" ++ text ++ "*"
  | _, _ => text

/-- One die: its face, an exclamation mark if it exploded, and its marks. -/
def die (style : Style) (struck : Bool) (d : RolledDie) : String :=
  let face := toString d.roll.toInt ++ (if d.exploded then "!" else "")
  let body := style.critical d.critical face
  withLabel d.outcome.label
    (if style.strikes struck d.outcome.valid then "~~" ++ body ++ "~~" else body)

/-- A text in parentheses if need be. -/
def enclose (needed : Bool) (text : String) : String :=
  if needed then "(" ++ text ++ ")" else text

/-- Terms with operators between them, as far as both go. -/
def interleave : List String → List String → String
  | [], _ => ""
  | head :: tail, ops =>
    (ops.zip tail).foldl (fun text (op, term) => text ++ " " ++ op ++ " " ++ term) head

end Style

namespace Result

def isNumber : Result → Bool
  | mk _ .number => true
  | _ => false

/-- The result is a chain of terms, which has to be enclosed inside another. -/
def isChain : Result → Bool
  | mk _ (.sum ..) | mk _ (.chain ..) => true
  | _ => false

variable (style : Style)

mutual

/-- The text of a result, inside a struck part or outside of one. -/
def textWithin (struck : Bool) : Result → String
  | mk outcome shape =>
    Style.withLabel outcome.label
      (if style.strikes struck outcome.valid
        then "~~" ++ bodyWithin true outcome.value shape ++ "~~"
        else bodyWithin struck outcome.value shape)

/-- The text of a result without its label and its own mark. -/
def bodyWithin (struck : Bool) (value : Number) : Shape Result → String
  | .number => value.text
  | .dice count sides rolls _ =>
    Style.enclose (!count.isNumber) (textWithin struck count) ++ "d" ++
      sidesWithin struck sides ++
      " (" ++ ", ".intercalate (rolls.map (style.die struck)) ++ ")"
  | .sum terms ops => Style.interleave (operandsWithin struck terms) (ops.map SumOp.symbol)
  | .chain terms ops => Style.interleave (operandsWithin struck terms) (ops.map ArithOp.symbol)
  | .group members => "\x7b" ++ ", ".intercalate (textsWithin struck members) ++ "\x7d"
  | .function fn arg => fn.symbol ++ "(" ++ textWithin struck arg ++ ")"

def sidesWithin (struck : Bool) : Sides Result → String
  | .fate => "F"
  | .numeric faces => Style.enclose (!faces.isNumber) (textWithin struck faces)

/-- The terms of a chain, in parentheses where they are chains themselves. -/
def operandsWithin (struck : Bool) : List Result → List String
  | [] => []
  | term :: rest =>
    Style.enclose term.isChain (textWithin struck term) :: operandsWithin struck rest

def textsWithin (struck : Bool) : List Result → List String
  | [] => []
  | member :: rest => textWithin struck member :: textsWithin struck rest

end

/-- The text of a whole result. -/
def text (r : Result) : String := r.textWithin style false

/-- The text of a whole result and its value. -/
def line (r : Result) : String :=
  match style with
  | .simple => r.text .simple ++ " = " ++ r.value.text
  | .markdown => r.text .markdown ++ " = `" ++ r.value.text ++ "`"

end Result

end DiceNotation
