import DiceNotation.Double.Order

/-!
# Rounding keeps the order

A double is found by cutting a quotient to fifty-three bits. As long as two
quotients are cut at the same place, the larger one does not round to less; if
they are cut at different places, the larger one has an exponent of its own, and
rounding up never goes past it. So the doubles nearest to integers stand in the
order of the integers (`rank_ofInt_le`).
-/

namespace DiceNotation

namespace Double

/-! ## Fields of a double that is made -/

theorem toNat_bits_ofMagnitude (negative : Bool) {m : Nat} (h : m < signBit) :
    (ofMagnitude negative m).bits.toNat = if negative then signBit + m else m := by
  unfold signBit at h ⊢
  rw [ofMagnitude, UInt64.toNat_ofNat']
  apply Nat.mod_eq_of_lt
  unfold signBit
  split <;> omega

theorem magnitude_ofMagnitude (negative : Bool) {m : Nat} (h : m < signBit) :
    (ofMagnitude negative m).magnitude = m := by
  rw [magnitude, toNat_bits_ofMagnitude negative h]
  split
  · rw [Nat.add_mod_left, Nat.mod_eq_of_lt h]
  · exact Nat.mod_eq_of_lt h

theorem isNegative_ofMagnitude (negative : Bool) {m : Nat} (h : m < signBit) :
    (ofMagnitude negative m).isNegative = negative := by
  rw [isNegative, toNat_bits_ofMagnitude negative h]
  cases negative
  · simpa using h
  · simp

theorem infinityMagnitude_lt_signBit : infinityMagnitude < signBit := by decide

/-! ## Rounding to a whole number -/

/-- Rounding goes no lower than the floor. -/
theorem le_roundHalfEven (num den : Nat) : num / den ≤ roundHalfEven num den := by
  rw [roundHalfEven]
  split <;> omega

/-- It goes no higher than one above. -/
theorem roundHalfEven_le (num den : Nat) : roundHalfEven num den ≤ num / den + 1 := by
  rw [roundHalfEven]
  split <;> omega

theorem roundHalfEven_mono {a b : Nat} (h : a ≤ b) (den : Nat) :
    roundHalfEven a den ≤ roundHalfEven b den := by
  have hquotient : a / den ≤ b / den := Nat.div_le_div_right h
  rcases Nat.lt_or_eq_of_le hquotient with hlt | heq
  · -- the larger quotient is out of reach of rounding up
    have := roundHalfEven_le a den
    have := le_roundHalfEven b den
    omega
  · have hrest : a % den ≤ b % den := by
      have ha := Nat.div_add_mod a den
      have hb := Nat.div_add_mod b den
      rw [heq] at ha
      omega
    rw [roundHalfEven, roundHalfEven, heq]
    split <;> split <;> omega

/-! ## Rounding to a double -/

/-- How many places of a quotient of smallest units are cut off. -/
def cut (units den : Nat) : Nat := (units / den).log2 - 52

/-- The magnitude of a quotient of smallest units, rounded; it may be past the
largest finite one. -/
def roundedMagnitude (units den : Nat) : Nat :=
  cut units den * exponentBit + roundHalfEven units (den <<< cut units den)

theorem ofRatio_eq (negative : Bool) (num den : Nat) :
    ofRatio negative num den =
      ofMagnitude negative (min (roundedMagnitude (num * unitsPerOne) den) infinityMagnitude) :=
  rfl

/-- No fewer places are cut off a larger number. -/
theorem cut_mono {a b : Nat} (h : a ≤ b) (den : Nat) : cut a den ≤ cut b den := by
  have hquotient : a / den ≤ b / den := Nat.div_le_div_right h
  have hlog : (a / den).log2 ≤ (b / den).log2 := by
    by_cases ha : a / den = 0
    · simp [ha]
    · have hpos : 0 < b / den := Nat.lt_of_lt_of_le (Nat.pos_of_ne_zero ha) hquotient
      exact (Nat.le_log2 (Nat.ne_of_gt hpos)).2 (Nat.le_trans (Nat.log2_self_le ha) hquotient)
  unfold cut
  omega

/-- What is left of a quotient has fifty-three bits at most. -/
theorem div_cut_lt (units den : Nat) : units / (den <<< cut units den) < 2 * exponentBit := by
  rw [Nat.shiftLeft_eq, ← Nat.div_div_eq_div_mul]
  apply Nat.div_lt_of_lt_mul
  have hlog : units / den < 2 ^ ((units / den).log2 + 1) := Nat.lt_log2_self
  have hpow : 2 ^ ((units / den).log2 + 1) ≤ 2 ^ (cut units den + 53) :=
    Nat.pow_le_pow_right (by decide) (by unfold cut; omega)
  have hbit : 2 * exponentBit = 2 ^ 53 := by decide
  rw [hbit, ← Nat.pow_add]
  omega

/-- What is left of a quotient has fifty-three bits if anything was cut off. -/
theorem le_div_cut {units den : Nat} (h : 0 < cut units den) :
    exponentBit ≤ units / (den <<< cut units den) := by
  have hlog : (units / den).log2 = 52 + cut units den := by
    unfold cut at h ⊢
    omega
  have hpos : units / den ≠ 0 := by
    intro hzero
    rw [hzero, Nat.log2_zero] at hlog
    omega
  rw [Nat.shiftLeft_eq, ← Nat.div_div_eq_div_mul, Nat.le_div_iff_mul_le (Nat.two_pow_pos _)]
  have hle := Nat.log2_self_le hpos
  have hbit : exponentBit = 2 ^ 52 := by decide
  rwa [hlog, Nat.pow_add, ← hbit] at hle

/-- A larger ratio is rounded to no smaller magnitude. -/
theorem roundedMagnitude_mono {a b : Nat} (h : a ≤ b) (den : Nat) :
    roundedMagnitude a den ≤ roundedMagnitude b den := by
  unfold roundedMagnitude
  rcases Nat.lt_or_eq_of_le (cut_mono h den) with hlt | heq
  · -- rounding up ends at the next exponent, which the larger quotient has reached
    have hup := roundHalfEven_le a (den <<< cut a den)
    have hleft := div_cut_lt a den
    have hdown := le_roundHalfEven b (den <<< cut b den)
    have hright : exponentBit ≤ b / (den <<< cut b den) := le_div_cut (by omega)
    unfold exponentBit at *
    omega
  · rw [heq]
    exact Nat.add_le_add_left (roundHalfEven_mono h _) _

/-! ## Integers among doubles -/

/-- The magnitude of the double nearest to an integer. -/
def intMagnitude (n : Nat) : Nat := min (roundedMagnitude (n * unitsPerOne) 1) infinityMagnitude

theorem intMagnitude_lt (n : Nat) : intMagnitude n < signBit :=
  Nat.lt_of_le_of_lt (Nat.min_le_right _ _) infinityMagnitude_lt_signBit

theorem intMagnitude_mono {a b : Nat} (h : a ≤ b) : intMagnitude a ≤ intMagnitude b := by
  have := roundedMagnitude_mono (Nat.mul_le_mul_right unitsPerOne h) 1
  unfold intMagnitude
  omega

/-- An integer has the sign of a double and a rounded magnitude. -/
theorem ofInt_eq (n : Int) : ofInt n = ofMagnitude (decide (n < 0)) (intMagnitude n.natAbs) := by
  rw [ofInt, ofRatio_eq, intMagnitude]

@[simp] theorem isNaN_ofInt (n : Int) : (ofInt n).isNaN = false := by
  rw [ofInt_eq, isNaN, magnitude_ofMagnitude _ (intMagnitude_lt _), decide_eq_false_iff_not]
  exact Nat.not_lt.2 (Nat.min_le_right _ _)

theorem rank_ofInt (n : Int) :
    (ofInt n).rank = if n < 0 then -(intMagnitude n.natAbs : Int) else intMagnitude n.natAbs := by
  rw [ofInt_eq, rank, isNegative_ofMagnitude _ (intMagnitude_lt _),
    magnitude_ofMagnitude _ (intMagnitude_lt _)]
  simp

/-- **Integers keep their order as doubles**, though neighbours may become one
double. -/
theorem rank_ofInt_mono {a b : Int} (h : a ≤ b) : (ofInt a).rank ≤ (ofInt b).rank := by
  rw [rank_ofInt, rank_ofInt]
  by_cases ha : a < 0
  · by_cases hb : b < 0
    · have := intMagnitude_mono (a := b.natAbs) (b := a.natAbs) (by omega)
      simp only [ha, hb, if_true]
      omega
    · simp only [ha, hb, if_true, if_false]
      omega
  · have := intMagnitude_mono (a := a.natAbs) (b := b.natAbs) (by omega)
    have hb : ¬b < 0 := by omega
    simp only [ha, hb, if_false]
    omega

end Double

end DiceNotation
