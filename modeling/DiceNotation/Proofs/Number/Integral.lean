import DiceNotation.Proofs.Number.Sums

/-!
# Integers that stay integers

An operation on two integers gives the exact answer as long as that is an integer that
fits, and a double otherwise (`Number.StandsFor`); it never wraps around. So it is with
sums, differences, products, even quotients, negation, the absolute value, and with the
left-to-right sum of a list (`Number.int_standsFor`).

Remainders and powers keep to it with exceptions of their own (`Number.rem_pow_standsFor`).
A remainder is left to doubles together with its quotient, so it is lost where the
quotient leaves the range, although it would be zero. A power takes no exponent above
`maxExponent`, also of the bases whose powers never leave the range.
-/

namespace DiceNotation

namespace Number

/-- The number is the integer that has the property, if one that fits does, and a double
if none does. -/
structure StandsFor (n : Number) (exact : Int → Prop) : Prop where
  int_iff : ∀ r : Int64, n = .int r ↔ exact r.toInt
  float : (∀ r, exact r → ¬Fits r) → ∃ x, n = .float x

theorem toInt_eq_zero {x : Int64} : x.toInt = 0 ↔ x = 0 := by
  rw [← Int64.toInt_inj, Int64.toInt_zero]

/-- **An integer under a condition**, and a double otherwise: the condition has to decide
whether there is an exact answer that fits. -/
theorem standsFor_ite {c : Prop} [Decidable c] {m : Int} {x : Double} {exact : Int → Prop}
    (hfits : c → Fits m) (hexact : ∀ r, Fits r → (exact r ↔ c ∧ r = m)) :
    (if c then .int (Int64.ofInt m) else .float x : Number).StandsFor exact := by
  by_cases hc : c
  · have hm : (Int64.ofInt m).toInt = m := toInt_ofInt (hfits hc)
    rw [if_pos hc]
    refine ⟨fun r => ?_, fun hnone => ?_⟩
    · rw [hexact _ (fits_toInt r), Number.int.injEq, ← Int64.toInt_inj, hm]
      exact ⟨fun h => ⟨hc, h.symm⟩, fun h => h.2.symm⟩
    · exact absurd (hfits hc) (hnone m ((hexact m (hfits hc)).2 ⟨hc, rfl⟩))
  · rw [if_neg hc]
    refine ⟨fun r => ?_, fun _ => ⟨x, rfl⟩⟩
    rw [hexact _ (fits_toInt r)]
    simp [hc]

/-- What is exact is an integer if it fits, and else its double. -/
theorem standsFor_ofExact (m : Int) (x : Double) : (ofExact m x).StandsFor (· = m) :=
  standsFor_ite id fun _ hr => ⟨fun h => ⟨h ▸ hr, h⟩, fun h => h.2⟩

/-! ## Quotients -/

/-- **A quotient is exact** if the division comes out even, and the quotient fits. -/
theorem standsFor_div (x y : Int64) :
    (Number.int x / .int y).StandsFor fun q => y.toInt ≠ 0 ∧ q * y.toInt = x.toInt := by
  refine standsFor_ite (fun h => h.1.2) fun q hq => ?_
  constructor
  · rintro ⟨hy, hx⟩
    have hquotient : x.toInt.tdiv y.toInt = q := Int.tdiv_eq_of_eq_mul_left hy hx.symm
    have hrest : x.toInt.tmod y.toInt = 0 := by rw [← hx, Int.mul_tmod_left]
    refine ⟨⟨⟨fun h => hy (toInt_eq_zero.2 h), ?_⟩, hrest⟩, hquotient.symm⟩
    rwa [hquotient]
  · rintro ⟨⟨⟨hy, -⟩, hrest⟩, rfl⟩
    exact ⟨fun h => hy (toInt_eq_zero.1 h), Int.tdiv_mul_cancel_of_tmod_eq_zero hrest⟩

/-! ## Sums of lists -/

section Sum

variable {xs : List Int64}

/-- A double goes on as one. -/
theorem exists_foldl_add_float (xs : List Int64) (x : Double) :
    ∃ y, (xs.map Number.int).foldl (· + ·) (.float x) = .float y := by
  induction xs generalizing x with
  | nil => exact ⟨x, rfl⟩
  | cons v xs ih => exact ih (x + Double.ofInt v.toInt)

/-- A sum that leaves the range on its way does not come back. -/
theorem exists_foldl_eq_float {s : Int64} (h : ¬SumsFit s.toInt xs) :
    ∃ y, (xs.map Number.int).foldl (· + ·) (.int s) = .float y := by
  induction xs generalizing s with
  | nil => exact absurd (fun k => by simpa using fits_toInt s) h
  | cons x xs ih =>
    rw [List.map_cons, List.foldl_cons]
    by_cases hfits : Fits (s.toInt + x.toInt)
    · rw [int_add_int hfits]
      refine ih fun hrest => h fun k => ?_
      rw [toInt_ofInt hfits] at hrest
      cases k with
      | zero => simpa using fits_toInt s
      | succ k => simpa [Int.add_assoc] using hrest k
    · have hfloat : Number.int s + .int x = .float (Double.ofInt s.toInt + Double.ofInt x.toInt) :=
        if_neg hfits
      rw [hfloat]
      exact exists_foldl_add_float xs _

/-- **The sum of a list is exact** if the sums along the way fit, and a double otherwise. -/
theorem standsFor_sum (xs : List Int64) :
    (Number.sum (xs.map Number.int)).StandsFor fun r =>
      SumsFit 0 xs ∧ r = (xs.map Int64.toInt).sum := by
  by_cases hsums : SumsFit 0 xs
  · have hfits : Fits (xs.map Int64.toInt).sum := by simpa using hsums.fits_sum
    rw [hsums.sum_eq]
    refine ⟨fun r => ?_, fun hnone => absurd hfits (hnone _ ⟨hsums, rfl⟩)⟩
    rw [Number.int.injEq, ← Int64.toInt_inj, toInt_ofInt hfits, eq_comm]
    exact ⟨fun h => ⟨hsums, h⟩, fun h => h.2⟩
  · obtain ⟨y, hy⟩ : ∃ y, Number.sum (xs.map Number.int) = .float y :=
      exists_foldl_eq_float (s := 0) (by rwa [Int64.toInt_zero])
    rw [hy]
    exact ⟨fun r => by simp [hsums], fun _ => ⟨y, rfl⟩⟩

end Sum

/-- **Arithmetic on integers is exact, or goes over to doubles.** For all integers of
sixty-four bits a sum, difference, product, negation and absolute value is the exact one
if that fits. A quotient is if the divisor is not zero and divides. The sum of a list is
if every sum along the way fits. In all other cases the answer is a double, and no
integer answer is ever another one than the exact one. -/
theorem int_standsFor (x y : Int64) (xs : List Int64) :
    (Number.int x + .int y).StandsFor (· = x.toInt + y.toInt) ∧
      (Number.int x - .int y).StandsFor (· = x.toInt - y.toInt) ∧
      (Number.int x * .int y).StandsFor (· = x.toInt * y.toInt) ∧
      (Number.int x / .int y).StandsFor (fun q => y.toInt ≠ 0 ∧ q * y.toInt = x.toInt) ∧
      (-Number.int x).StandsFor (· = -x.toInt) ∧
      (Number.int x).abs.StandsFor (· = x.toInt.natAbs) ∧
      (Number.sum (xs.map Number.int)).StandsFor fun r =>
        SumsFit 0 xs ∧ r = (xs.map Int64.toInt).sum :=
  ⟨standsFor_ofExact .., standsFor_ofExact .., standsFor_ofExact .., standsFor_div x y,
    standsFor_ofExact .., standsFor_ofExact .., standsFor_sum xs⟩

/-- The lowest integer divided by `-1` leaves the range, and is exact as a double. -/
example : Number.int Int64.minValue / .int (-1) = .float (Double.ofInt (-lowest)) := by
  decide +kernel

/-! ## Remainders -/

/-- A quotient is no further from zero than the dividend, so it leaves the range in one
case. -/
theorem fits_tdiv_iff {x y : Int64} (hy : y.toInt ≠ 0) :
    Fits (x.toInt.tdiv y.toInt) ↔ ¬(x.toInt = lowest ∧ y.toInt = -1) := by
  have hx := fits_toInt x
  have hle := Int.natAbs_tdiv_le_natAbs x.toInt y.toInt
  constructor
  · rintro hfits ⟨hlowest, hone⟩
    rw [hlowest, hone] at hfits
    exact absurd hfits (by decide)
  · intro hnot
    unfold Fits at *
    by_cases hlowest : x.toInt = lowest
    · -- the quotient is at most half as far from zero, or has the sign of the dividend
      by_cases hone : y.toInt = 1
      · rw [hone, Int.tdiv_one]
        exact hx
      · have htwo : 2 ≤ y.toInt.natAbs := by omega
        have hhalf : (x.toInt.tdiv y.toInt).natAbs ≤ x.toInt.natAbs / 2 := by
          rw [Int.natAbs_tdiv]
          exact Nat.div_le_div_left htwo (by decide)
        unfold lowest highest at *
        omega
    · unfold lowest highest at *
      omega

/-- **A remainder is exact** where the quotient fits. -/
theorem standsFor_rem (x y : Int64) :
    (Number.int x % .int y).StandsFor fun r =>
      y.toInt ≠ 0 ∧ ¬(x.toInt = lowest ∧ y.toInt = -1) ∧ r = x.toInt.tmod y.toInt := by
  have hdivides : Divides x y ↔ y.toInt ≠ 0 ∧ ¬(x.toInt = lowest ∧ y.toInt = -1) := by
    rw [Divides, ne_eq, ← toInt_eq_zero]
    exact and_congr_right fits_tdiv_iff
  refine standsFor_ite (fun h => ?_) fun r _ => by rw [hdivides, and_assoc]
  -- a remainder is no further from zero than the dividend, and has its sign
  have hx := fits_toInt x
  have hle : (x.toInt.tmod y.toInt).natAbs ≤ x.toInt.natAbs := by
    rw [Int.natAbs_tmod]
    exact Nat.mod_le _ _
  have hy : y.toInt.natAbs ≠ 0 := by
    have := (hdivides.1 h).1
    omega
  have hlt : (x.toInt.tmod y.toInt).natAbs < y.toInt.natAbs := by
    rw [Int.natAbs_tmod]
    exact Nat.mod_lt _ (Nat.pos_of_ne_zero hy)
  have hdivisor := fits_toInt y
  unfold Fits lowest highest at *
  omega

/-! ## Powers -/

/-- The powers of `-1`, `0` and `1` come round after two. -/
theorem pow_add_two {b : Int} (hb : b.natAbs ≤ 1) (n : Nat) : b.pow (n + 3) = b.pow (n + 1) := by
  have hcube : b * b * b = b := by
    obtain rfl | rfl | rfl : b = -1 ∨ b = 0 ∨ b = 1 := by omega
    · rfl
    · rfl
    · rfl
  have hsucc (k : Nat) : b.pow (k + 1) = b.pow k * b := Int.pow_succ b k
  rw [hsucc (n + 2), hsucc (n + 1), hsucc n, Int.mul_assoc, Int.mul_assoc, ← Int.mul_assoc b, hcube]

/-- With the bases -1, 0 and 1 only the parity of an exponent matters. -/
theorem pow_eq_pow_parity {b : Int} (hb : b.natAbs ≤ 1) :
    ∀ n, b.pow (n + 1) = b.pow (2 - (n + 1) % 2)
  | 0 => rfl
  | 1 => rfl
  | n + 2 => by rw [pow_add_two hb n, pow_eq_pow_parity hb n, Nat.add_mod_right (n + 1) 2]

/-- Every other base has left the range by the sixty-fourth power. -/
theorem not_fits_pow {b : Int} {n : Nat} (hb : 1 < b.natAbs) (hn : 64 ≤ n) : ¬Fits (b.pow n) := by
  have hpow : (b.pow n).natAbs = b.natAbs ^ n := Int.natAbs_pow b n
  have hbase : 2 ^ n ≤ b.natAbs ^ n := Nat.pow_le_pow_left hb n
  have hexponent : 2 ^ 64 ≤ 2 ^ n := Nat.pow_le_pow_right (by decide) hn
  unfold Fits lowest highest
  omega

/-- **The power that fits**, whatever way it is found. -/
theorem power?_eq (b : Int) (n : Nat) :
    power? b n = if Fits (b.pow n) then some (b.pow n) else none := by
  rw [power?]
  by_cases hb : b.natAbs ≤ 1
  · have hreduced : b.pow (if n = 0 then 0 else 2 - n % 2) = b.pow n := by
      cases n with
      | zero => rfl
      | succ n => exact (pow_eq_pow_parity hb n).symm
    have hsmall : ¬64 ≤ if n = 0 then 0 else 2 - n % 2 := by split <;> omega
    simp only [if_pos hb, if_neg hsmall, hreduced]
  · simp only [if_neg hb]
    split
    next hn => rw [if_neg (not_fits_pow (by omega) hn)]
    next => rfl

/-- **A power is exact** if it fits, and if its exponent is one that powers take. -/
theorem standsFor_pow (x y : Int64) :
    ((Number.int x).pow (.int y)).StandsFor fun r =>
      0 ≤ y.toInt ∧ (y.toInt ≤ maxExponent ∨ 1 < x.toInt.natAbs) ∧
        r = x.toInt.pow y.toInt.toNat := by
  have hpow : (Number.int x).pow (.int y) =
      if (0 ≤ y.toInt ∧ y.toInt ≤ maxExponent) ∧ Fits (x.toInt.pow y.toInt.toNat) then
        .int (Int64.ofInt (x.toInt.pow y.toInt.toNat))
      else .float (Double.pow (Double.ofInt x.toInt) (Double.ofInt y.toInt)) := by
    rw [pow, power?_eq]
    by_cases hy : 0 ≤ y.toInt ∧ y.toInt ≤ maxExponent
    · by_cases hfits : Fits (x.toInt.pow y.toInt.toNat)
      · simp only [if_pos hy, if_pos hfits, if_pos (And.intro hy hfits)]
      · simp only [if_pos hy, hfits, and_false, if_false]
    · simp only [hy, false_and, if_false]
  rw [hpow]
  refine standsFor_ite (fun h => h.2) fun r hr => ?_
  constructor
  · rintro ⟨hnonneg, hmost, rfl⟩
    refine ⟨⟨⟨hnonneg, ?_⟩, hr⟩, rfl⟩
    rcases hmost with hmost | hbase
    · exact hmost
    · -- an exponent past the largest one makes too large a power of such a base
      by_contra hlarge
      have hn : 64 ≤ y.toInt.toNat := by
        unfold maxExponent at hlarge
        omega
      exact not_fits_pow hbase hn hr
  · rintro ⟨⟨⟨hnonneg, hmost⟩, -⟩, rfl⟩
    exact ⟨hnonneg, .inl hmost, rfl⟩

/-- **Remainders and powers of integers**, for all of sixty-four bits. A remainder is the
truncated one unless the divisor is zero or the lowest integer is divided by `-1`. A
power is the exact one if its exponent is not negative and it fits, unless the base is
`-1`, `0` or `1` and the exponent above `maxExponent`. In all other cases the answer is a
double, and no integer answer is ever another one than the exact one. -/
theorem rem_pow_standsFor (x y : Int64) :
    (Number.int x % .int y).StandsFor (fun r =>
        y.toInt ≠ 0 ∧ ¬(x.toInt = lowest ∧ y.toInt = -1) ∧ r = x.toInt.tmod y.toInt) ∧
      ((Number.int x).pow (.int y)).StandsFor fun r =>
        0 ≤ y.toInt ∧ (y.toInt ≤ maxExponent ∨ 1 < x.toInt.natAbs) ∧
          r = x.toInt.pow y.toInt.toNat :=
  ⟨standsFor_rem x y, standsFor_pow x y⟩

/-- The lowest integer has the remainder zero by `-1`, and `2 ^ 53 + 1` is odd: both
answers are integers that fit, and both are doubles. The second one is found by rounding
the exponent to `2 ^ 53`. -/
theorem rem_pow_not_exact :
    (lowest.tmod (-1) = 0 ∧
        Number.int Int64.minValue % .int (-1) = .float (Double.ofMagnitude true 0)) ∧
      (-1 : Int).pow 9007199254740993 = -1 ∧
        (Number.int (-1)).pow (.int 9007199254740993) =
          .float (Double.pow (Double.ofInt (-1)) (Double.ofInt 9007199254740992)) := by
  refine ⟨by decide +kernel, pow_eq_pow_parity (by decide) 9007199254740992, ?_⟩
  have hrounded : Double.ofInt 9007199254740993 = Double.ofInt 9007199254740992 := by
    decide +kernel
  have habove : ¬(0 ≤ (9007199254740993 : Int64).toInt ∧
      (9007199254740993 : Int64).toInt ≤ maxExponent) := by decide
  rw [← hrounded, pow, if_neg habove]
  rfl

end Number

end DiceNotation
