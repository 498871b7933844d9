/-!
# Double-precision numbers

A `Double` is its 64 bits: a sign, eleven bits of exponent and fifty-two of
fraction. Core's `Float` has a single NaN; here a NaN keeps its sign, because
the total order (`Double.totalRank`) reads it.

Every finite double is a whole number of units of `2 ^ -1074` (`scaled`), so
comparing, rounding to an integer and taking remainders are integer
arithmetic. Only `ofRatio` rounds to a double: it takes any non-negative
fraction to the nearest double, a tie to the one whose last bit is zero.
-/

namespace DiceNotation

/-- A double-precision binary number, given by its bits. -/
structure Double where
  /-- Sign, exponent and fraction, from the highest bit to the lowest. -/
  bits : UInt64
deriving DecidableEq, Inhabited

namespace Double

/-! ## The fields -/

/-- The sign bit, which is `2 ^ 63`. -/
def signBit : Nat := 0x8000000000000000

/-- The lowest bit of the exponent, which is `2 ^ 52`. -/
def exponentBit : Nat := 0x10000000000000

/-- The bits without the sign, as a number. Among doubles of one sign it grows
with the value. -/
def magnitude (x : Double) : Nat := x.bits.toNat % signBit

/-- The sign bit is set; `-0` and a NaN may have it too. -/
def isNegative (x : Double) : Bool := decide (signBit ≤ x.bits.toNat)

/-- The magnitude of infinity: smaller ones are finite, larger ones are NaNs. -/
def infinityMagnitude : Nat := 2047 * exponentBit

def isNaN (x : Double) : Bool := decide (infinityMagnitude < x.magnitude)

def isFinite (x : Double) : Bool := decide (x.magnitude < infinityMagnitude)

/-- The double with the given sign and magnitude. -/
def ofMagnitude (negative : Bool) (magnitude : Nat) : Double :=
  ⟨UInt64.ofNat (if negative then signBit + magnitude else magnitude)⟩

def zero : Double := ofMagnitude false 0

def infinity (negative : Bool) : Double := ofMagnitude negative infinityMagnitude

def nan (negative : Bool) : Double := ofMagnitude negative (infinityMagnitude + exponentBit / 2)

/-! ## The exact value -/

/-- The fraction with its leading bit, which a subnormal number does not have. -/
def significand (x : Double) : Nat :=
  if x.magnitude < exponentBit then x.magnitude else exponentBit + x.magnitude % exponentBit

/-- How many binary places the significand stands above the smallest unit. -/
def shift (x : Double) : Nat := x.magnitude / exponentBit - 1

/-- The value of a finite double in units of `2 ^ -1074`. -/
def scaled (x : Double) : Int :=
  let units : Nat := x.significand <<< x.shift
  if x.isNegative then -units else units

/-- How many of the smallest units make one. -/
def unitsPerOne : Nat := 1 <<< 1074

/-! ## Rounding to a double -/

/-- The whole number nearest to `num / den`, a tie going to the even one. -/
def roundHalfEven (num den : Nat) : Nat :=
  let quotient := num / den
  let rest := 2 * (num % den)
  if rest < den ∨ (rest = den ∧ quotient % 2 = 0) then quotient else quotient + 1

/-- The double nearest to `num / den` with the given sign, a tie going to the
even significand. The quotient in smallest units is cut to fifty-three bits; a
significand that rounds up to fifty-four carries into the exponent by itself,
and what is past the largest finite double is infinite. -/
def ofRatio (negative : Bool) (num den : Nat) : Double :=
  let units := num * unitsPerOne
  let shift := (units / den).log2 - 52
  ofMagnitude negative
    (min (shift * exponentBit + roundHalfEven units (den <<< shift)) infinityMagnitude)

/-- The double nearest to an integer. -/
def ofInt (n : Int) : Double := ofRatio (decide (n < 0)) n.natAbs 1

/-! ## Rounding to an integer -/

/-- The largest integer not above a finite double. -/
def floor (x : Double) : Int := x.scaled.fdiv unitsPerOne

/-- The smallest integer not below a finite double. -/
def ceil (x : Double) : Int := -((-x.scaled).fdiv unitsPerOne)

/-- A finite double without its fraction. -/
def truncate (x : Double) : Int := x.scaled.tdiv unitsPerOne

/-- Applies a rounding to a finite double and keeps the answer inside the given
bounds, which stand for the infinities too. A NaN counts as zero. -/
def saturate (low high : Int) (round : Double → Int) (x : Double) : Int :=
  if x.isNaN then 0
  else if x.isFinite then max low (min high (round x))
  else if x.isNegative then low else high

end Double

end DiceNotation
