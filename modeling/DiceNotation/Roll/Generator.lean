import DiceNotation.Roll.Rolling

/-!
# Generated randomness

A supply of values in the unit interval from a seed: the number of the draw is
added to the seed in large odd steps, and the bits of the sum are mixed.
-/

namespace DiceNotation

namespace Supply

/-- Spreads every bit of a word over all others. -/
def mix (word : UInt64) : UInt64 :=
  let word := (word ^^^ (word >>> 30)) * 0xbf58476d1ce4e5b9
  let word := (word ^^^ (word >>> 27)) * 0x94d049bb133111eb
  word ^^^ (word >>> 31)

/-- The fifty-three upper bits of a word, as a fraction of one. -/
def unitInterval (word : UInt64) : Double :=
  Double.ofRatio false (word >>> 11).toNat (2 * Double.exponentBit)

/-- The values that a seed generates. -/
def generated (seed : UInt64) (limit : Nat) : Supply where
  value n := unitInterval (mix (seed + UInt64.ofNat (n + 1) * 0x9e3779b97f4a7c15))
  limit := limit

end Supply

end DiceNotation
