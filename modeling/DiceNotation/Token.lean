/-!
# Tokens

The kinds of token, what each looks like (`Kind.patterns`), and how messages
name them (`Kind.text`). A kind of word has one spelling; digits, decimals and
labels are classes of text. `error` is what no pattern covers.
-/

namespace DiceNotation

namespace Token

/-- The kinds of token. -/
inductive Kind where
  | integer
  | decimal
  | d
  | fate
  | leftParen
  | rightParen
  | leftBrace
  | rightBrace
  | comma
  | inlineOpen
  | inlineClose
  | label
  | plus
  | minus
  | star
  | starStar
  | slash
  | percent
  | greater
  | less
  | equal
  | keep
  | high
  | low
  | explode
  | compound
  | penetrate
  | reroll
  | rerollOnce
  | failure
  | critSuccess
  | critFailure
  | match
  | matchCount
  | sort
  | sortAsc
  | sortDesc
  | floor
  | ceil
  | round
  | abs
  | error
deriving DecidableEq, Repr

/-- What the text of a token looks like. -/
inductive Pattern where
  /-- Exactly this word. -/
  | word (spelling : String)
  /-- Decimal digits, at least one. -/
  | digits
  /-- Digits, a point, digits. -/
  | pointed
  /-- Brackets around at least one character that is no bracket. -/
  | bracketed
deriving DecidableEq

namespace Kind

/-- The pattern of every kind but `error`. -/
def pattern? : Kind → Option Pattern
  | integer => some .digits
  | decimal => some .pointed
  | d => some (.word "d")
  | fate => some (.word "F")
  | leftParen => some (.word "(")
  | rightParen => some (.word ")")
  | leftBrace => some (.word "\x7b")
  | rightBrace => some (.word "\x7d")
  | comma => some (.word ",")
  | inlineOpen => some (.word "[[")
  | inlineClose => some (.word "]]")
  | label => some .bracketed
  | plus => some (.word "+")
  | minus => some (.word "-")
  | star => some (.word "*")
  | starStar => some (.word "**")
  | slash => some (.word "/")
  | percent => some (.word "%")
  | greater => some (.word ">")
  | less => some (.word "<")
  | equal => some (.word "=")
  | keep => some (.word "k")
  | high => some (.word "h")
  | low => some (.word "l")
  | explode => some (.word "!")
  | compound => some (.word "!!")
  | penetrate => some (.word "!p")
  | reroll => some (.word "r")
  | rerollOnce => some (.word "ro")
  | failure => some (.word "f")
  | critSuccess => some (.word "cs")
  | critFailure => some (.word "cf")
  | .match => some (.word "m")
  | matchCount => some (.word "mt")
  | sort => some (.word "s")
  | sortAsc => some (.word "sa")
  | sortDesc => some (.word "sd")
  | floor => some (.word "floor")
  | ceil => some (.word "ceil")
  | round => some (.word "round")
  | abs => some (.word "abs")
  | error => none

/-- All kinds that have a pattern. -/
def all : List Kind := [
  integer, decimal, d, fate, leftParen, rightParen, leftBrace, rightBrace, comma,
  inlineOpen, inlineClose, label, plus, minus, star, starStar, slash, percent,
  greater, less, equal, keep, high, low, explode, compound, penetrate, reroll,
  rerollOnce, failure, critSuccess, critFailure, .match, matchCount, sort, sortAsc,
  sortDesc, floor, ceil, round, abs]

/-- How a message names a kind: a word in quotes, a class in angle brackets. -/
def text (k : Kind) : String :=
  match k.pattern? with
  | some (.word spelling) => "'" ++ spelling ++ "'"
  | some .digits => "<integer>"
  | some .pointed => "<decimal>"
  | some .bracketed => "<label>"
  | none => "<error>"

end Kind

end Token

/-- A token: its kind, its text, and the byte of the input where it starts. -/
structure Token where
  kind : Token.Kind
  start : Nat
  text : String
deriving DecidableEq

/-- The byte after the last one of the token. -/
def Token.stop (t : Token) : Nat := t.start + t.text.utf8ByteSize

end DiceNotation
