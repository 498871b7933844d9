import DiceNotation.Double.Arithmetic
import DiceNotation.Double.Order
import DiceNotation.Proofs.Double.Rounding
import DiceNotation.Proofs.Number.Sums

/-!
# The sign of a product

Core computes a product on unpacked numbers, which carry their sign apart, and
packs the answer again. Both ways keep a positive sign (`Unsigned`), so a product
of doubles without the sign bit has none (`Double.isNegative_mul`), unless it is
a NaN, which rounding takes for zero.
-/

namespace DiceNotation

namespace Double

open Float.Model

/-! ## Unpacked numbers -/

/-- The sign is positive, or there is none. -/
def Unsigned : UnpackedFloat → Prop
  | .notANumber => True
  | .infinity sign | .zero sign | .finite sign .. => sign = .positive

theorem Unsigned.dite {c : Prop} [Decidable c] {x : c → UnpackedFloat} {y : ¬c → UnpackedFloat}
    (hx : ∀ h, Unsigned (x h)) (hy : ∀ h, Unsigned (y h)) :
    Unsigned (if h : c then x h else y h) := by
  by_cases h : c
  · exact dif_pos h ▸ hx h
  · exact dif_neg h ▸ hy h

theorem Unsigned.ite {c : Prop} [Decidable c] {x y : UnpackedFloat} (hx : Unsigned x)
    (hy : Unsigned y) : Unsigned (if c then x else y) :=
  .dite (fun _ => hx) fun _ => hy

/-- A product of numbers without sign has none. -/
theorem Unsigned.mul {spec : Format} {x y : UnpackedFloat} (hx : Unsigned x) (hy : Unsigned y) :
    Unsigned (x.mul spec y) := by
  have hsign {s t : UnpackedFloat.Sign} (hs : s = .positive) (ht : t = .positive) :
      s * t = .positive := by rw [hs, ht]; rfl
  cases x <;> cases y
  case finite.finite =>
    exact .dite (fun _ => hsign hx hy) fun _ => hsign hx hy
  all_goals first
    | exact trivial
    | exact hsign hx hy

/-- Without a sign the packed bits stay below the sign bit. -/
theorem toNat_packComponents_lt (exponent : BitVec 11) (mantissa : BitVec 52) :
    (UnpackedFloat.packComponents .binary64 .positive exponent mantissa).toNat < signBit := by
  have hsign : (0#1 ++ exponent).toNat = exponent.toNat := by
    rw [BitVec.toNat_append]
    simp
  have hexponent := exponent.isLt
  have hmantissa := mantissa.isLt
  change (0#1 ++ exponent ++ mantissa).toNat < signBit
  rw [BitVec.toNat_append, hsign, ← Nat.shiftLeft_add_eq_or_of_lt hmantissa, Nat.shiftLeft_eq]
  unfold signBit
  omega

theorem toNat_pack_lt {x : UnpackedFloat} (h : Unsigned x) :
    (x.pack .binary64).toNat < signBit := by
  cases x with
  | notANumber => exact toNat_packComponents_lt ..
  | infinity sign | zero sign =>
    obtain rfl : sign = .positive := h
    exact toNat_packComponents_lt ..
  | finite sign m e hm =>
    obtain rfl : sign = .positive := h
    delta UnpackedFloat.pack
    dsimp only
    split
    · exact toNat_packComponents_lt ..
    split <;> exact toNat_packComponents_lt ..

theorem unsigned_unpack {bits : BitVec 64} (h : bits.toNat < signBit) :
    Unsigned (.unpack .binary64 bits) := by
  have hbit : bits.extractLsb 63 63 = 0 := by
    unfold signBit at h
    apply BitVec.eq_of_toNat_eq
    rw [BitVec.extractLsb_toNat, Nat.shiftRight_eq_div_pow, Nat.div_eq_of_lt h]
    rfl
  have hsign : UnpackedFloat.Sign.ofBitVec (@UnpackedFloat.unpackSign .binary64 bits) =
      .positive := by
    change UnpackedFloat.Sign.ofBitVec ((bits.extractLsb 63 63).cast _) = _
    rw [hbit]
    rfl
  exact .ite (.ite hsign trivial) (.ite (.dite (fun _ => hsign) fun _ => hsign) hsign)

/-! ## Doubles -/

/-- The sign bit is what a double is negative by. -/
theorem toNat_bits_lt_iff {x : Double} : x.bits.toNat < signBit ↔ x.isNegative = false := by
  simp [isNegative]

/-- **A product of doubles without the sign bit** has no sign bit, or it is a NaN. -/
theorem isNegative_mul {x y : Double} (hx : x.isNegative = false) (hy : y.isNegative = false) :
    (x * y).isNaN ∨ (x * y).isNegative = false := by
  have hunpack {x : Double} (hx : x.isNegative = false) : Unsigned x.toFloat.toModel.unpack :=
    unsigned_unpack (toNat_pack_lt (unsigned_unpack (toNat_bits_lt_iff.2 hx)))
  have hmul : (x.toFloat * y.toFloat).toBits.toNat < signBit :=
    toNat_pack_lt ((hunpack hx).mul (hunpack hy))
  change (lift (· * ·) x y).isNaN ∨ (lift (· * ·) x y).isNegative = false
  rw [lift]
  split
  · -- a NaN that goes in comes out, and otherwise it is the one with the sign set
    refine .inl ?_
    split
    next h => exact h
    split
    next h => exact h
    · decide
  · exact .inr (toNat_bits_lt_iff.1 hmul)

/-- What has no sign bit is not rounded below zero, and a NaN counts as zero. -/
theorem saturate_floor_nonneg (low : Int) {high : Int} {x : Double} (hhigh : 0 ≤ high)
    (h : x.isNaN ∨ x.isNegative = false) : 0 ≤ saturate low high floor x := by
  have hfloor (hx : x.isNegative = false) : 0 ≤ x.floor := by
    have : 0 ≤ x.scaled := by
      rw [scaled, hx]
      exact Int.natCast_nonneg _
    exact Int.fdiv_nonneg this (Int.natCast_nonneg _)
  unfold saturate
  split
  · exact Int.le_refl 0
  next hnan =>
    have hx := h.resolve_left hnan
    have := hfloor hx
    rw [hx]
    split
    · omega
    · exact hhigh

theorem isNegative_ofInt (n : Int) : (ofInt n).isNegative = decide (n < 0) := by
  rw [ofInt_eq, isNegative_ofMagnitude _ (intMagnitude_lt _)]

/-- What is not below zero has no sign bit, or it is `-0`. -/
theorem isNegative_or_eq_of_zero_le {x : Double} (h : zero.le x) :
    x.isNegative = false ∨ x = ofMagnitude true 0 := by
  cases hx : x.isNegative with
  | false => exact .inl rfl
  | true =>
    have hrank : zero.rank ≤ x.rank := (le_iff.1 h).2.2
    have hzero : x.magnitude = 0 := by
      have : zero.rank = 0 := by decide
      rw [this, rank, hx, if_pos rfl] at hrank
      omega
    have hbits : x.bits.toNat = signBit := by
      have hsign := of_decide_eq_true hx
      have hlt := x.bits.toNat_lt
      rw [magnitude] at hzero
      unfold signBit at *
      omega
    refine .inr (congrArg mk (UInt64.toNat_inj.1 ?_))
    rw [hbits]
    rfl

theorem zero_le_ofRatio (num den : Nat) : zero.le (ofRatio false num den) := by
  have hle : min (roundedMagnitude (num * unitsPerOne) den) infinityMagnitude ≤
      infinityMagnitude := Nat.min_le_right _ _
  have hlt := Nat.lt_of_le_of_lt hle infinityMagnitude_lt_signBit
  have hzero : zero.isNaN = false ∧ zero.rank = 0 := by decide
  have hnan : (ofRatio false num den).isNaN = false := by
    rw [ofRatio_eq, isNaN, magnitude_ofMagnitude _ hlt]
    exact decide_eq_false (Nat.not_lt.2 hle)
  have hrank : 0 ≤ (ofRatio false num den).rank := by
    rw [ofRatio_eq, rank, isNegative_ofMagnitude _ hlt]
    simp
  exact le_iff.2 ⟨hzero.1, hnan, hzero.2 ▸ hrank⟩

end Double

/-- The floor of what is not negative is no negative integer. -/
theorem Number.toInt_clampToInt64_nonneg {x : Double} (h : x.isNaN ∨ x.isNegative = false) :
    0 ≤ (clampToInt64 Double.floor x).toInt := by
  have hnonneg : 0 ≤ x.saturate lowest highest Double.floor :=
    Double.saturate_floor_nonneg lowest (by decide) h
  have hle : x.saturate lowest highest Double.floor ≤ highest := by
    unfold Double.saturate
    split
    · decide
    split
    · unfold lowest highest
      omega
    split <;> decide
  rw [clampToInt64, toInt_ofInt ⟨Int.le_trans (by decide) hnonneg, hle⟩]
  exact hnonneg

end DiceNotation
