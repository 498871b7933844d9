import DiceNotation.Double.Basic

/-!
# Arithmetic on doubles

The four operations and the power are core's operations on `Float`. What core
leaves open is which NaN comes out: a NaN that goes in is passed on, the left
one before the right, and an operation that numbers do not define gives the NaN
with its sign set. Only the power turns the sign of a NaN (`Double.pow`). The
remainder is computed exactly, on the smallest units.
-/

namespace DiceNotation

namespace Double

/-- The same number as core's type has it. -/
def toFloat (x : Double) : Float := Float.ofBits x.bits

/-- An operation of core's type, with the sign of a NaN settled. -/
def lift (op : Float → Float → Float) (x y : Double) : Double :=
  let z := op x.toFloat y.toFloat
  if z.isNaN then
    if x.isNaN then x else if y.isNaN then y else nan true
  else ⟨z.toBits⟩

instance : Add Double := ⟨lift (· + ·)⟩

instance : Sub Double := ⟨lift (· - ·)⟩

instance : Mul Double := ⟨lift (· * ·)⟩

instance : Div Double := ⟨lift (· / ·)⟩

/-- A finite double that is an odd whole number. -/
def isOdd (x : Double) : Bool :=
  x.isFinite && decide (x.scaled % (2 * unitsPerOne) = unitsPerOne)

/-- The power; anything to the power zero, and one to any power, is one, also
where the other operand is a NaN. An odd power of a NaN has no sign. -/
def pow (x y : Double) : Double :=
  if x.isNaN && y.isOdd then ofMagnitude false x.magnitude else lift Float.pow x y

instance : Neg Double := ⟨fun x => ofMagnitude (!x.isNegative) x.magnitude⟩

def abs (x : Double) : Double := ofMagnitude false x.magnitude

/-- The remainder of the division cut towards zero. It has the sign of the
dividend, and no rounding takes place. -/
def rem (x y : Double) : Double :=
  if x.isNaN then x
  else if y.isNaN then y
  else if !x.isFinite || y.magnitude = 0 then nan true
  else if !y.isFinite then x
  else ofRatio x.isNegative (x.scaled.natAbs % y.scaled.natAbs) unitsPerOne

instance : Mod Double := ⟨rem⟩

end Double

end DiceNotation
