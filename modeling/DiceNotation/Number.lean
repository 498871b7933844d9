import DiceNotation.Double.Arithmetic
import DiceNotation.Double.Order
import DiceNotation.Double.Text

/-!
# The numbers of a roll

A `Number` is an integer of sixty-four bits as long as the arithmetic allows
it, and a double from there on. Whatever takes two integers computes in `Int`
and keeps the answer if it fits (`ofExact`); what does not fit is computed
again on doubles.

Comparisons see both kinds through one view, `toDouble`, so `2` and `2.0` are
the same to every condition and every ranking.
-/

namespace DiceNotation

/-- An integer where possible, otherwise a double. -/
inductive Number where
  | int (value : Int64)
  | float (value : Double)
deriving DecidableEq, Inhabited

namespace Number

/-! ## Views -/

def zero : Number := .int 0

/-- The lowest integer that an `Int64` can hold, which is `-2 ^ 63`. -/
def lowest : Int := -0x8000000000000000

/-- The highest integer that an `Int64` can hold, which is `2 ^ 63 - 1`. -/
def highest : Int := 0x7fffffffffffffff

/-- An integer that an `Int64` can hold. -/
def Fits (n : Int) : Prop := lowest ≤ n ∧ n ≤ highest

instance (n : Int) : Decidable (Fits n) := inferInstanceAs (Decidable (_ ∧ _))

/-- An exact integer, kept as one if it fits. -/
def ofExact (n : Int) (otherwise : Double) : Number :=
  if Fits n then .int (Int64.ofInt n) else .float otherwise

/-- The view that comparisons and rankings take. -/
def toDouble : Number → Double
  | .int x => Double.ofInt x.toInt
  | .float x => x

/-- A double brought to an integer by the given rounding: the nearest bound if
it is outside, zero for a NaN. -/
def clampToInt64 (round : Double → Int) (x : Double) : Int64 :=
  Int64.ofInt (x.saturate lowest highest round)

/-- The whole part, at most as far as an `Int64` goes. -/
def toInt64 : Number → Int64
  | .int x => x
  | .float x => clampToInt64 Double.truncate x

/-- A request for so many things, at most `limit`: the whole part, and none for
what is below one or not a number. -/
def toCount (limit : Nat) (n : Number) : Nat :=
  (n.toDouble.saturate 0 limit Double.truncate).toNat

/-! ## Arithmetic -/

/-- An operation that is exact on integers as long as the answer fits. -/
def exactly (onInt : Int → Int → Int) (onDouble : Double → Double → Double) :
    Number → Number → Number
  | .int x, .int y =>
    ofExact (onInt x.toInt y.toInt) (onDouble (Double.ofInt x.toInt) (Double.ofInt y.toInt))
  | x, y => .float (onDouble x.toDouble y.toDouble)

instance : Add Number := ⟨exactly (· + ·) (· + ·)⟩

instance : Sub Number := ⟨exactly (· - ·) (· - ·)⟩

instance : Mul Number := ⟨exactly (· * ·) (· * ·)⟩

/-- The machine's remainder overflows with its quotient: both are left to
doubles if the divisor is zero, or if the quotient does not fit. -/
def Divides (x y : Int64) : Prop := y ≠ 0 ∧ Fits (x.toInt.tdiv y.toInt)

instance (x y : Int64) : Decidable (Divides x y) := inferInstanceAs (Decidable (_ ∧ _))

/-- An integer if the division comes out even. -/
def div : Number → Number → Number
  | .int x, .int y =>
    if Divides x y ∧ x.toInt.tmod y.toInt = 0 then .int (Int64.ofInt (x.toInt.tdiv y.toInt))
    else .float (Double.ofInt x.toInt / Double.ofInt y.toInt)
  | x, y => .float (x.toDouble / y.toDouble)

instance : Div Number := ⟨div⟩

/-- The remainder has the sign of the dividend. -/
def rem : Number → Number → Number
  | .int x, .int y =>
    if Divides x y then .int (Int64.ofInt (x.toInt.tmod y.toInt))
    else .float (Double.ofInt x.toInt % Double.ofInt y.toInt)
  | x, y => .float (x.toDouble % y.toDouble)

instance : Mod Number := ⟨rem⟩

/-- `base ^ exponent`, if it fits. A base other than `-1`, `0` and `1` leaves
the range by the sixty-fourth power. -/
def power? (base : Int) (exponent : Nat) : Option Int :=
  let reduced :=
    if base.natAbs ≤ 1 then (if exponent = 0 then 0 else 2 - exponent % 2) else exponent
  if 64 ≤ reduced then none
  else if Fits (base.pow reduced) then some (base.pow reduced) else none

/-- The largest exponent that a power of integers takes, which is `2 ^ 32 - 1`. -/
def maxExponent : Int := 0xffffffff

def pow : Number → Number → Number
  | .int x, .int y =>
    let onDouble := Double.pow (Double.ofInt x.toInt) (Double.ofInt y.toInt)
    if 0 ≤ y.toInt ∧ y.toInt ≤ maxExponent then
      match power? x.toInt y.toInt.toNat with
      | some n => .int (Int64.ofInt n)
      | none => .float onDouble
    else .float onDouble
  | x, y => .float (Double.pow x.toDouble y.toDouble)

instance : Neg Number where
  neg
    | .int x => ofExact (-x.toInt) (-Double.ofInt x.toInt)
    | .float x => .float (-x)

def abs : Number → Number
  | .int x => ofExact x.toInt.natAbs (Double.ofInt x.toInt).abs
  | .float x => .float x.abs

/-- The left-to-right sum, from the integer zero. -/
def sum (xs : List Number) : Number := xs.foldl (· + ·) zero

/-! ## Rounding -/

/-- A double rounded to an integer. Beyond `highest`, on either side, a double
is whole already and stays what it is; so do the infinities and a NaN. -/
def rounded (round : Double → Int) (x : Double) : Number :=
  if x.isFinite ∧ (round x).natAbs ≤ highest then .int (Int64.ofInt (round x)) else .float x

def floor : Number → Number
  | .float x => rounded Double.floor x
  | n => n

def ceil : Number → Number
  | .float x => rounded Double.ceil x
  | n => n

/-- A half goes up. -/
def round : Number → Number
  | .float x => rounded Double.floor (x + Double.ofRatio false 1 2)
  | n => n

/-! ## Comparison -/

/-- The numeric comparison, if the numbers compare. -/
def compare? (x y : Number) : Option Ordering := x.toDouble.compare? y.toDouble

/-- At least one of two numbers that compare at all. -/
def atLeast (x y : Number) : Bool := (x.compare? y).any Ordering.isGE

def atMost (x y : Number) : Bool := (x.compare? y).any Ordering.isLE

def same (x y : Number) : Bool := (x.compare? y).any Ordering.isEq

/-- Strictly above; never true of a NaN. -/
def above (x y : Number) : Bool := atLeast x y && !same x y

section Comparison

variable {x y : Number}

theorem atLeast_iff :
    x.atLeast y ↔
      x.toDouble.isNaN = false ∧ y.toDouble.isNaN = false ∧
        y.toDouble.rank ≤ x.toDouble.rank := by
  rw [atLeast, compare?, Double.any_compare?, Bool.and_eq_true, Bool.and_eq_true,
    Int.isGE_compare, and_assoc]
  simp

theorem atMost_iff :
    x.atMost y ↔
      x.toDouble.isNaN = false ∧ y.toDouble.isNaN = false ∧
        x.toDouble.rank ≤ y.toDouble.rank := by
  rw [atMost, compare?, Double.any_compare?, Bool.and_eq_true, Bool.and_eq_true,
    Int.isLE_compare, and_assoc]
  simp

theorem same_iff :
    x.same y ↔
      x.toDouble.isNaN = false ∧ y.toDouble.isNaN = false ∧
        x.toDouble.rank = y.toDouble.rank := by
  rw [same, compare?, Double.any_compare?, Bool.and_eq_true, Bool.and_eq_true, and_assoc]
  simp

end Comparison

/-- The total order of the views, by which dice are ranked. -/
def totalCompare (x y : Number) : Ordering := x.toDouble.totalCompare y.toDouble

/-! ## Text -/

/-- An integer in decimal, a double in its shortest text. -/
def text : Number → String
  | .int x => toString x.toInt
  | .float x => x.text

end Number

end DiceNotation
