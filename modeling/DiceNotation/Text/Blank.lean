/-!
# Blanks

The white space of the Unicode standard, and text without it at either end.
Between tokens only four of these characters are skipped (`Token.isGap`); all
of them are trimmed from labels and from lines.
-/

namespace DiceNotation

namespace Text

/-- The characters with the property White_Space. -/
def blanks : List Char := [
  '\t', '\n', '\x0b', '\x0c', '\r', ' ', '\u0085', '\u00a0', '\u1680',
  '\u2000', '\u2001', '\u2002', '\u2003', '\u2004', '\u2005', '\u2006',
  '\u2007', '\u2008', '\u2009', '\u200a', '\u2028', '\u2029', '\u202f',
  '\u205f', '\u3000']

def isBlank (c : Char) : Bool := blanks.contains c

/-- A text without the blanks at its two ends. -/
def trim (cs : List Char) : List Char :=
  ((cs.dropWhile isBlank).reverse.dropWhile isBlank).reverse

end Text

end DiceNotation
