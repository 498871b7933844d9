import DiceNotation.Double.Basic

/-!
# Decimal text of doubles

A double is written with the fewest decimal digits that read back as the same
double, and of those the nearest to it; two equally near go to the larger. The
digits are laid out positionally whatever the exponent, without a point when
the number is whole. Reading takes digits with an optional point and exponent,
and rounds once.
-/

namespace DiceNotation

/-- A non-negative decimal number: `digits * 10 ^ exponent`. -/
structure Decimal where
  digits : Nat
  exponent : Int
deriving DecidableEq

namespace Decimal

/-- A power of ten. -/
def tenTo (places : Nat) : Nat := Nat.pow 10 places

/-- Digits of the whole part, then those after the point, if any are left when
closing zeros are dropped. -/
def positional (d : Decimal) : String :=
  if 0 ≤ d.exponent then toString (d.digits * tenTo d.exponent.toNat)
  else
    let places := (-d.exponent).toNat
    let whole := toString (d.digits / tenTo places)
    let below := (toString (d.digits % tenTo places)).toList
    let fraction := List.replicate (places - below.length) '0' ++ below
    match (fraction.reverse.dropWhile (· == '0')).reverse with
    | [] => whole
    | kept => whole ++ "." ++ String.ofList kept

end Decimal

namespace Double

/-! ## Writing -/

/-- The numbers that round to one finite double, as a fraction with its
tolerance on both sides: everything strictly between
`(num - below) / den` and `(num + above) / den`, and the ends too if `closed`. -/
structure Neighbourhood where
  num : Nat
  below : Nat
  above : Nat
  den : Nat
  closed : Bool

/-- Half the way to the neighbours on both sides. The lower neighbour of a
power of two is half as far away. An end belongs to the double whose last bit
is zero. -/
def neighbourhood (x : Double) : Neighbourhood where
  num := (4 * x.significand) <<< x.shift
  below := (if x.significand = exponentBit ∧ 0 < x.shift then 1 else 2) <<< x.shift
  above := 2 <<< x.shift
  den := 4 * unitsPerOne
  closed := x.significand % 2 == 0

/-- A multiple `k * step / den` lies in the neighbourhood. -/
def Neighbourhood.holds (h : Neighbourhood) (step scale k : Nat) : Bool :=
  let point := k * step
  if h.closed then
    decide ((h.num - h.below) * scale ≤ point ∧ point ≤ (h.num + h.above) * scale)
  else
    decide ((h.num - h.below) * scale < point ∧ point < (h.num + h.above) * scale)

/-- The multiple of `10 ^ exponent` in the neighbourhood that is nearest to its
centre, if one of the two around the centre lies in it. -/
def Neighbourhood.onGrid (h : Neighbourhood) (exponent : Int) : Option Decimal :=
  let step := h.den * Decimal.tenTo exponent.toNat
  let scale := Decimal.tenTo (-exponent).toNat
  let low := h.num * scale / step
  let rest := h.num * scale % step
  match h.holds step scale low, h.holds step scale (low + 1) with
  | true, true => some ⟨if 2 * rest < step then low else low + 1, exponent⟩
  | true, false => some ⟨low, exponent⟩
  | false, true => some ⟨low + 1, exponent⟩
  | false, false => none

/-- The first grid with a hit, from the coarsest on. -/
def Neighbourhood.search (h : Neighbourhood) : Nat → Int → Decimal
  | 0, exponent =>
    ⟨h.num * Decimal.tenTo (-exponent).toNat / (h.den * Decimal.tenTo exponent.toNat), exponent⟩
  | tries + 1, exponent =>
    match h.onGrid exponent with
    | some d => d
    | none => h.search tries (exponent - 1)

/-- How many decimal digits a number has. -/
def digitCount (n : Nat) : Nat := (Nat.toDigits 10 n).length

/-- The fewest digits that read back as the magnitude of a finite double.
Seventeen grids below the decimal place of the first digit are enough for every
double; the search starts a place above it. -/
def shortest (x : Double) : Decimal :=
  let h := x.neighbourhood
  if h.num = 0 then ⟨0, 0⟩
  else
    let start : Int :=
      if h.den ≤ h.num then digitCount (h.num / h.den) else 1 - digitCount (h.den / h.num)
    h.search 20 start

/-- The text of a double. -/
def text (x : Double) : String :=
  if x.isNaN then "NaN"
  else
    let body := if x.isFinite then x.shortest.positional else "inf"
    if x.isNegative then "-" ++ body else body

/-! ## Reading -/

/-- The double nearest to a decimal number. Outside of the exponents that a
double can have the answer is known without computing the power. -/
def ofDecimal (negative : Bool) (d : Decimal) : Double :=
  if d.digits = 0 then ofMagnitude negative 0
  else if 310 < d.exponent then infinity negative
  else if d.exponent + digitCount d.digits < -330 then ofMagnitude negative 0
  else
    ofRatio negative (d.digits * Decimal.tenTo d.exponent.toNat)
      (Decimal.tenTo (-d.exponent).toNat)

/-- The number that a list of decimal digits writes, after those already read. -/
def readDigits (before : Nat) (digits : List Char) : Nat :=
  digits.foldl (fun n c => 10 * n + (c.toNat - '0'.toNat)) before

/-- A sign in front and what follows it. -/
def splitSign : List Char → Bool × List Char
  | '-' :: rest => (true, rest)
  | '+' :: rest => (false, rest)
  | cs => (false, cs)

/-- The exponent part: nothing, or `e`, an optional sign and digits. -/
def readExponent? : List Char → Option Int
  | [] => some 0
  | e :: rest =>
    let (negative, digits) := splitSign rest
    if (e == 'e' || e == 'E') && !digits.isEmpty && digits.all Char.isDigit then
      let n : Int := readDigits 0 digits
      some (if negative then -n else n)
    else none

/-- Digits, optionally a point and more digits, optionally an exponent. A digit
has to stand on at least one side of the point. -/
def readNumber? (negative : Bool) (cs : List Char) : Option Double := do
  let whole := cs.takeWhile Char.isDigit
  let rest := cs.dropWhile Char.isDigit
  let (fraction, rest) := match rest with
    | '.' :: more => (more.takeWhile Char.isDigit, more.dropWhile Char.isDigit)
    | _ => ([], rest)
  if whole.isEmpty && fraction.isEmpty then none
  else
    let exponent ← readExponent? rest
    some (ofDecimal negative
      ⟨readDigits (readDigits 0 whole) fraction, exponent - fraction.length⟩)

/-- Reads the text of a double: a decimal number, `inf`, `infinity` or `nan` in
any case, each with an optional sign. -/
def ofText? (s : String) : Option Double :=
  let (negative, body) := splitSign s.toList
  let word := body.map Char.toLower
  if word == "inf".toList || word == "infinity".toList then some (infinity negative)
  else if word == "nan".toList then some (nan negative)
  else readNumber? negative body

end Double

end DiceNotation
