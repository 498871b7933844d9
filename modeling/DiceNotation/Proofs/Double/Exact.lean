import DiceNotation.Proofs.Double.Rounding
import Mathlib.Order.Monotone.Basic

/-!
# Doubles in smallest units

The value of a double is a whole number of smallest units. It grows with the place of
the double in the order (`scaled_lt_of_rank_lt`), so no two doubles have one value, but
for the two zeros. A value of fifty-three bits is not rounded, so integers up to
`2 ^ 53` are exact (`scaled_ofInt`), and so are their whole parts.
-/

namespace DiceNotation

namespace Double

/-! ## The order of values -/

/-- The value of a magnitude in smallest units. -/
def unitsOf (m : Nat) : Nat :=
  (if m < exponentBit then m else exponentBit + m % exponentBit) <<< (m / exponentBit - 1)

/-- From the first exponent on, a magnitude has its leading bit apart. -/
theorem unitsOf_of_le {m : Nat} (h : exponentBit ≤ m) :
    unitsOf m = (exponentBit + m % exponentBit) <<< (m / exponentBit - 1) := by
  rw [unitsOf, if_neg (Nat.not_lt.2 h)]

theorem unitsOf_of_lt {m : Nat} (h : m < exponentBit) : unitsOf m = m := by
  rw [unitsOf, if_pos h, Nat.div_eq_of_lt h, Nat.zero_sub, Nat.shiftLeft_zero]

/-- From one double to the next the value grows. -/
theorem unitsOf_lt_succ (m : Nat) : unitsOf m < unitsOf (m + 1) := by
  rcases Nat.lt_trichotomy (m + 1) exponentBit with hlt | heq | hgt
  · rw [unitsOf_of_lt hlt, unitsOf_of_lt (Nat.lt_of_succ_lt hlt)]
    exact Nat.lt_succ_self m
  · -- the first magnitude with an exponent
    rw [unitsOf_of_lt (Nat.lt_of_succ_le (Nat.le_of_eq heq)), unitsOf_of_le (Nat.le_of_eq heq.symm),
      heq, Nat.mod_self, Nat.div_self (by decide)]
    omega
  · have hpow := Nat.two_pow_pos (m / exponentBit - 1)
    rw [unitsOf_of_le (Nat.le_of_lt_succ hgt), unitsOf_of_le (Nat.le_of_lt hgt), Nat.shiftLeft_eq,
      Nat.shiftLeft_eq]
    unfold exponentBit at *
    by_cases hrest : m % 0x10000000000000 + 1 < 0x10000000000000
    · have hdiv : (m + 1) / 0x10000000000000 = m / 0x10000000000000 := by omega
      rw [hdiv]
      exact Nat.mul_lt_mul_of_pos_right (by omega) hpow
    · -- the next exponent
      have hdiv : (m + 1) / 0x10000000000000 - 1 = m / 0x10000000000000 - 1 + 1 := by omega
      rw [hdiv, Nat.pow_succ', ← Nat.mul_assoc]
      exact Nat.mul_lt_mul_of_pos_right (by omega) hpow

theorem unitsOf_strictMono : StrictMono unitsOf := strictMono_nat_of_lt_succ unitsOf_lt_succ

/-- The place of a number and its value have the same sign. -/
theorem scaled_eq (x : Double) :
    x.scaled = if x.rank < 0 then -(unitsOf x.rank.natAbs : Int) else unitsOf x.rank.natAbs := by
  have hzero : unitsOf 0 = 0 := rfl
  change (if x.isNegative then -(unitsOf x.magnitude : Int) else unitsOf x.magnitude) = _
  rw [rank]
  cases x.isNegative with
  | false => simp
  | true =>
    rcases Nat.eq_zero_or_pos x.magnitude with hmagnitude | hmagnitude
    · simp [hmagnitude, hzero]
    · simp [hmagnitude]

/-- **The order of numbers is the order of their values.** -/
theorem scaled_lt_of_rank_lt {x y : Double} (h : x.rank < y.rank) : x.scaled < y.scaled := by
  have hlt (m m' : Nat) (h : m < m') : (unitsOf m : Int) < unitsOf m' :=
    Int.ofNat_lt.2 (unitsOf_strictMono h)
  rw [scaled_eq, scaled_eq]
  by_cases hx : x.rank < 0
  · by_cases hy : y.rank < 0
    · have := hlt y.rank.natAbs x.rank.natAbs (by omega)
      simp only [hx, hy, if_true]
      omega
    · have := hlt 0 x.rank.natAbs (by omega)
      simp only [hx, hy, if_true, if_false]
      omega
  · have hy : ¬y.rank < 0 := by omega
    simp only [hx, hy, if_false]
    exact hlt _ _ (by omega)

theorem scaled_le_of_rank_le {x y : Double} (h : x.rank ≤ y.rank) : x.scaled ≤ y.scaled := by
  rcases Int.lt_or_eq_of_le h with hlt | heq
  · exact Int.le_of_lt (scaled_lt_of_rank_lt hlt)
  · rw [scaled_eq, scaled_eq, heq]

/-! ## Integers among values -/

section Exact

variable {significand places : Nat} (hleast : exponentBit ≤ significand)
  (hmost : significand < 2 * exponentBit)

include hleast hmost

/-- Of fifty-three bits with places behind them just these places are cut off. -/
theorem cut_exact : cut (significand <<< places) 1 = places := by
  rw [Nat.shiftLeft_eq]
  have hpow := Nat.two_pow_pos places
  have hpos : 0 < significand := Nat.lt_of_lt_of_le (by decide) hleast
  have hlow : 2 ^ (52 + places) ≤ significand * 2 ^ places := by
    rw [Nat.pow_add]
    exact Nat.mul_le_mul_right _ hleast
  have hhigh : significand * 2 ^ places < 2 ^ (52 + places + 1) := by
    rw [Nat.add_right_comm, Nat.pow_add]
    exact Nat.mul_lt_mul_of_pos_right hmost hpow
  have hlog : (significand * 2 ^ places).log2 = 52 + places :=
    (Nat.log2_eq_iff (Nat.ne_of_gt (Nat.mul_pos hpos hpow))).2 ⟨hlow, hhigh⟩
  rw [cut, Nat.div_one, hlog, Nat.add_sub_cancel_left]

/-- **A value of fifty-three bits is not rounded.** -/
theorem roundedMagnitude_exact :
    roundedMagnitude (significand <<< places) 1 = places * exponentBit + significand := by
  have hround : roundHalfEven (significand <<< places) (2 ^ places) = significand := by
    have hpow := Nat.two_pow_pos places
    rw [Nat.shiftLeft_eq, roundHalfEven, Nat.mul_mod_left, Nat.mul_zero, if_pos (.inl hpow),
      Nat.mul_div_cancel _ hpow]
  rw [roundedMagnitude, cut_exact hleast hmost, Nat.one_shiftLeft, hround]

/-- The magnitude that is left stands for the same number. -/
theorem unitsOf_exact :
    unitsOf (places * exponentBit + significand) = significand <<< places := by
  rw [unitsOf_of_le (Nat.le_trans hleast (Nat.le_add_left _ _))]
  unfold exponentBit at *
  have hmod : (places * 0x10000000000000 + significand) % 0x10000000000000 =
      significand - 0x10000000000000 := by omega
  have hdiv : (places * 0x10000000000000 + significand) / 0x10000000000000 - 1 = places := by omega
  rw [hmod, hdiv, Nat.add_sub_cancel' hleast]

end Exact

/-- **An integer up to `2 ^ 53` is exact** as a double. -/
theorem scaled_ofInt {n : Nat} (h : n ≤ 0x20000000000000) :
    (ofInt n).scaled = (n * unitsPerOne : Nat) := by
  have hfits (significand places : Nat) (hleast : exponentBit ≤ significand)
      (hmost : significand < 2 * exponentBit) (hplaces : places ≤ 1075)
      (heq : n * unitsPerOne = significand <<< places) :
      (ofInt n).scaled = (n * unitsPerOne : Nat) := by
    have hmagnitude : intMagnitude n = places * exponentBit + significand := by
      rw [intMagnitude, heq, roundedMagnitude_exact hleast hmost]
      unfold infinityMagnitude exponentBit at *
      omega
    have hneg : ¬(n : Int) < 0 := by omega
    rw [scaled_eq, rank_ofInt, if_neg hneg, Int.natAbs_natCast, hmagnitude, if_neg (by omega),
      Int.natAbs_natCast, unitsOf_exact hleast hmost, heq]
  rcases Nat.eq_zero_or_pos n with rfl | hpos
  · decide +kernel
  rcases Nat.lt_or_eq_of_le h with hlt | rfl
  · -- the integer is moved up until it has fifty-three bits
    have hself := Nat.log2_self_le (Nat.ne_of_gt hpos)
    have hnext : n < 2 ^ (n.log2 + 1) := Nat.lt_log2_self
    have hlog : n.log2 ≤ 52 := Nat.le_of_lt_succ ((Nat.log2_lt (Nat.ne_of_gt hpos)).2 hlt)
    have hpow := Nat.two_pow_pos (52 - n.log2)
    refine hfits (n * 2 ^ (52 - n.log2)) (n.log2 + 1022) ?_ ?_ (by omega) ?_
    · have hle := Nat.mul_le_mul_right (2 ^ (52 - n.log2)) hself
      rwa [← Nat.pow_add, Nat.add_sub_cancel' hlog] at hle
    · have hlt := Nat.mul_lt_mul_of_pos_right hnext hpow
      rwa [← Nat.pow_add, Nat.add_right_comm, Nat.add_sub_cancel' hlog] at hlt
    · have hsum : 52 - n.log2 + (n.log2 + 1022) = 1074 := by omega
      rw [Nat.shiftLeft_eq, Nat.mul_assoc, ← Nat.pow_add, hsum, unitsPerOne, Nat.one_shiftLeft]
  -- the last one, 2 ^ 53, is a power of two
  · exact hfits exponentBit 1075 (by decide) (by decide) (by decide) (by decide +kernel)

theorem unitsPerOne_pos : 0 < unitsPerOne := by decide +kernel

theorem truncate_mono {x y : Double} (h : x.rank ≤ y.rank) : x.truncate ≤ y.truncate :=
  Int.tdiv_le_tdiv (Int.natCast_pos.2 unitsPerOne_pos) (scaled_le_of_rank_le h)

/-- Up to 2 ^ 53, natural numbers come back from their doubles. -/
theorem truncate_ofInt {n : Nat} (h : n ≤ 0x20000000000000) : (ofInt n).truncate = n := by
  rw [truncate, scaled_ofInt h, Int.natCast_mul]
  exact Int.mul_tdiv_cancel _ (Int.natCast_pos.2 unitsPerOne_pos).ne'

/-- What is below one has no whole part above zero. -/
theorem truncate_nonpos {x : Double} (h : x.rank < (ofInt (1 : Nat)).rank) : x.truncate ≤ 0 := by
  have hpos := unitsPerOne_pos
  have hscaled := scaled_lt_of_rank_lt h
  rw [scaled_ofInt (by decide), Nat.one_mul] at hscaled
  have hle : x.scaled ≤ unitsPerOne - 1 := by omega
  refine Int.le_trans (Int.tdiv_le_tdiv (Int.natCast_pos.2 hpos) hle) (Int.le_of_eq ?_)
  exact Int.tdiv_eq_zero_of_lt (by omega) (by omega)

end Double

end DiceNotation
