import DiceNotation.Number
import DiceNotation.Proofs.Double.Exact
import DiceNotation.Proofs.Number.Sums

/-!
# Numbers that count things

A number asks for so many things, or for so many faces: for its whole part, as far as
that is possible. Both go through the double view, where large integers fall together.
Below `2 ^ 53` they do not, so under a ceiling that low a request is either refused,
or for none, or exact (`Number.toCount_eq_whole`).
-/

namespace DiceNotation

namespace Double

/-! ## Small integers -/

/-- Small integers keep their order as doubles. -/
theorem rank_ofInt_lt {a b : Nat} (h : a < b) (hb : b ≤ 0x20000000000000) :
    (ofInt a).rank < (ofInt b).rank := by
  by_contra hle
  have hscaled := scaled_le_of_rank_le (Int.not_lt.1 hle)
  rw [scaled_ofInt hb, scaled_ofInt (Nat.le_trans (Nat.le_of_lt h) hb), Int.ofNat_le] at hscaled
  exact Nat.not_le.2 h (Nat.le_of_mul_le_mul_right hscaled unitsPerOne_pos)

/-- What is between zero and a small integer is finite. -/
theorem isFinite_of_rank_le {x : Double} {c : Nat} (hc : c ≤ 0x20000000000000)
    (hneg : x.isNegative = false) (h : x.rank ≤ (ofInt c).rank) : x.isFinite = true := by
  have hlargest : (ofInt (0x20000000000000 : Nat)).rank < infinityMagnitude := by decide +kernel
  have hmono : (ofInt c).rank ≤ (ofInt (0x20000000000000 : Nat)).rank :=
    rank_ofInt_mono (Int.ofNat_le.2 hc)
  rw [rank, hneg] at h
  rw [isFinite, decide_eq_true_iff]
  simp only [Bool.false_eq_true, if_false] at h
  omega

end Double

namespace Number

variable {x : Number} {c limit : Nat}

/-- The number without its fraction. -/
def whole : Number → Int
  | .int x => x.toInt
  | .float x => x.truncate

/-! ## At least one -/

/-- To be one at least is to be no less than the double of one. -/
theorem atLeast_one_iff :
    x.atLeast (.int 1) = true ↔
      x.toDouble.isNaN = false ∧ (Double.ofInt (1 : Nat)).rank ≤ x.toDouble.rank := by
  have hone : (Number.int 1).toDouble = Double.ofInt (1 : Nat) := rfl
  rw [atLeast_iff, hone, Double.isNaN_ofInt]
  simp

/-- What is one at least is not negative. -/
theorem isNegative_of_atLeast_one (h : x.atLeast (.int 1) = true) :
    x.toDouble.isNegative = false := by
  have hpos : (0 : Int) < (Double.ofInt (1 : Nat)).rank := by decide +kernel
  have hrank := (atLeast_one_iff.1 h).2
  cases hneg : x.toDouble.isNegative with
  | false => rfl
  | true =>
    have hle : x.toDouble.rank ≤ 0 := by
      rw [Double.rank, if_pos hneg]
      omega
    omega

/-- What is at least one has a whole part of one at least. -/
theorem one_le_truncate (h : x.atLeast (.int 1) = true) : 1 ≤ x.toDouble.truncate := by
  have := Double.truncate_mono (atLeast_one_iff.1 h).2
  rwa [Double.truncate_ofInt (by decide)] at this

/-- **What is below one, or no number, asks for nothing.** -/
theorem toCount_eq_zero (h : x.atLeast (.int 1) = false) (limit : Nat) : x.toCount limit = 0 := by
  rw [toCount, Double.saturate]
  split
  · rfl
  next hnan =>
    have hrank : x.toDouble.rank < (Double.ofInt (1 : Nat)).rank := by
      by_contra hle
      rw [atLeast_one_iff.2 ⟨by simpa using hnan, Int.not_lt.1 hle⟩] at h
      cases h
    split
    · have := Double.truncate_nonpos hrank
      omega
    next hinfinite =>
      have hneg : x.toDouble.isNegative = true := by
        by_contra hneg
        exact hinfinite (Double.isFinite_of_rank_le (by decide) (by simpa using hneg)
          (Int.le_of_lt hrank))
      rw [if_pos hneg]
      rfl

/-- An integer that is at least one as a double is so itself. -/
theorem one_le_toInt {v : Int64} (h : (Number.int v).atLeast (.int 1) = true) : 1 ≤ v.toInt := by
  by_contra hlt
  have hrank : (Double.ofInt v.toInt).rank ≤ (Double.ofInt (0 : Nat)).rank :=
    Double.rank_ofInt_mono (by omega)
  have hzero := Double.rank_ofInt_lt (a := 0) (b := 1) (by decide) (by decide)
  have hone : (Double.ofInt (1 : Nat)).rank ≤ (Double.ofInt v.toInt).rank := (atLeast_one_iff.1 h).2
  omega

/-- **A number of faces** has one at least. -/
theorem one_le_toInt64 (h : x.atLeast (.int 1) = true) : 1 ≤ x.toInt64.toInt := by
  cases x with
  | int v => exact one_le_toInt h
  | float x =>
    have htruncate : 1 ≤ x.truncate := one_le_truncate h
    have hneg : x.isNegative = false := isNegative_of_atLeast_one h
    have hnan : x.isNaN = false := (atLeast_one_iff.1 h).1
    have hsaturate : 1 ≤ x.saturate lowest highest Double.truncate ∧
        x.saturate lowest highest Double.truncate ≤ highest := by
      simp only [Double.saturate, hnan, hneg, Bool.false_eq_true, if_false]
      unfold lowest highest
      split <;> omega
    rw [toInt64, clampToInt64, toInt_ofInt ⟨Int.le_trans (by decide) hsaturate.1, hsaturate.2⟩]
    exact hsaturate.1

/-! ## Under a ceiling -/

section Ceiling

variable (hc : c < 0x20000000000000)
  (h : x.toDouble.isNaN = false → x.toDouble.rank ≤ (Double.ofInt c).rank)

include hc h

/-- **What is not above a ceiling** asks for no more than it. -/
theorem toCount_le : x.toCount limit ≤ c := by
  rw [toCount, Double.saturate]
  split
  · exact Nat.zero_le c
  next hnan =>
    have hrank := h (by simpa using hnan)
    split
    · have := Double.truncate_mono hrank
      rw [Double.truncate_ofInt (Nat.le_of_lt hc)] at this
      omega
    next hinfinite =>
      have hneg : x.toDouble.isNegative = true := by
        by_contra hneg
        exact hinfinite (Double.isFinite_of_rank_le (Nat.le_of_lt hc) (by simpa using hneg) hrank)
      rw [if_pos hneg]
      exact Nat.zero_le c

/-- **A request that is not refused is exact**, if it is for anything. -/
theorem toCount_eq_whole (hlimit : c ≤ limit) (hone : x.atLeast (.int 1) = true) :
    (x.toCount limit : Int) = x.whole := by
  have hnan := (atLeast_one_iff.1 hone).1
  have hneg := isNegative_of_atLeast_one hone
  have hrank := h hnan
  have hfinite := Double.isFinite_of_rank_le (Nat.le_of_lt hc) hneg hrank
  have hleast := one_le_truncate hone
  have hmost := Double.truncate_mono hrank
  rw [Double.truncate_ofInt (Nat.le_of_lt hc)] at hmost
  have hcount : (x.toCount limit : Int) = x.toDouble.truncate := by
    rw [toCount, Double.saturate, hnan, if_neg (by simp), if_pos hfinite]
    omega
  rw [hcount]
  cases x with
  | float x => rfl
  | int v =>
    have hleast : 1 ≤ v.toInt := one_le_toInt hone
    have hmost : v.toInt ≤ c := by
      by_contra hlt
      have hnext : (Double.ofInt ((c + 1 : Nat) : Int)).rank ≤ (Double.ofInt v.toInt).rank :=
        Double.rank_ofInt_mono (by omega)
      have := Double.rank_ofInt_lt (a := c) (b := c + 1) (Nat.lt_succ_self c) (Nat.succ_le_of_lt hc)
      have hrank : (Double.ofInt v.toInt).rank ≤ (Double.ofInt c).rank := hrank
      omega
    obtain ⟨n, hn⟩ := Int.eq_ofNat_of_zero_le (Int.le_trans (by decide) hleast)
    change (Double.ofInt v.toInt).truncate = v.toInt
    rw [hn, Double.truncate_ofInt (by omega)]

end Ceiling

end Number

end DiceNotation
