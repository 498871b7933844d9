import DiceNotation.Double.Arithmetic
import DiceNotation.Double.Text
import DiceNotation.Proofs.Double.Rounding
import Mathlib.Data.List.TakeWhile

/-!
# Rounding to infinity

The largest finite double has fifty-three bits set. What lies half a place above
it or higher rounds to infinity and what lies below does not, so a fraction is
infinite as a double exactly if its whole part reaches `overflow`
(`isFinite_ofRatio`).
-/

namespace DiceNotation

namespace Double

variable {num den units k : Nat}

/-- The least whole number that rounds to infinity, `2 ^ 1024 - 2 ^ 970`. -/
def overflow : Nat := 0x3fffffffffffff <<< 970

/-- A magnitude is finite up to that of the infinities. -/
theorem isFinite_ofMagnitude (negative : Bool) {m : Nat} (h : m < signBit) :
    (ofMagnitude negative m).isFinite = decide (m < infinityMagnitude) := by
  rw [isFinite, magnitude_ofMagnitude negative h]

/-! ## Half a place -/

/-- Below the middle between two numbers, rounding does not go past the lower one. -/
theorem roundHalfEven_le_of_lt (h : 2 * num < (2 * k + 1) * den) : roundHalfEven num den ≤ k := by
  have hnum := Nat.div_add_mod num den
  rw [Nat.add_mul, Nat.one_mul, Nat.mul_assoc, Nat.mul_comm k] at h
  rcases Nat.lt_trichotomy (num / den) k with hlt | heq | hgt
  · exact Nat.le_trans (roundHalfEven_le num den) hlt
  · rw [heq] at hnum
    exact Nat.le_of_eq (by rw [roundHalfEven, if_pos (.inl (by omega)), heq])
  · have hle : den * (k + 1) ≤ den * (num / den) := Nat.mul_le_mul_left den hgt
    rw [Nat.mul_add, Nat.mul_one] at hle
    omega

/-- In the middle, rounding goes up from an odd number. -/
theorem lt_roundHalfEven (hden : 0 < den) (hodd : k % 2 = 1) (h : (2 * k + 1) * den ≤ 2 * num) :
    k < roundHalfEven num den := by
  have hnum := Nat.div_add_mod num den
  have hrest := Nat.mod_lt num hden
  rw [Nat.add_mul, Nat.one_mul, Nat.mul_assoc, Nat.mul_comm k] at h
  have hle : k ≤ num / den := (Nat.le_div_iff_mul_le hden).2 (by rw [Nat.mul_comm]; omega)
  rcases Nat.lt_or_eq_of_le hle with hlt | heq
  · exact Nat.lt_of_lt_of_le hlt (le_roundHalfEven num den)
  · rw [← heq] at hnum
    rw [roundHalfEven, if_neg (by omega), ← heq]
    exact Nat.lt_succ_self k

/-! ## Past the largest finite double -/

/-- How many places are cut off tells between which powers of two a quotient lies. -/
theorem cut_le_iff (hden : 0 < den) {places : Nat} :
    cut units den ≤ places ↔ units < den <<< (places + 53) := by
  rw [Nat.shiftLeft_eq, Nat.mul_comm, ← Nat.div_lt_iff_lt_mul hden, cut]
  rcases Nat.eq_zero_or_pos (units / den) with hzero | hpos
  · rw [hzero]
    exact iff_of_true (Nat.zero_le _) (Nat.two_pow_pos _)
  · rw [← Nat.log2_lt (Nat.ne_of_gt hpos)]
    omega

/-- **What rounds past the largest finite double**, in smallest units: its
fifty-three bits begin at place 2045, and half a place more is too much. -/
theorem roundedMagnitude_lt_iff (hden : 0 < den) :
    roundedMagnitude units den < infinityMagnitude ↔
      2 * units < 0x3fffffffffffff * den <<< 2045 := by
  have hshift (places : Nat) : den <<< (2045 + places) = den <<< 2045 * 2 ^ places := by
    rw [Nat.shiftLeft_add, Nat.shiftLeft_eq (den <<< 2045)]
  have hpos : 0 < den <<< 2045 := by
    rw [Nat.shiftLeft_eq]
    exact Nat.mul_pos hden (Nat.two_pow_pos 2045)
  unfold infinityMagnitude roundedMagnitude
  rcases Nat.lt_trichotomy (cut units den) 2045 with hlt | heq | hgt
  · -- an exponent is left, even if rounding carries into it
    have hup := roundHalfEven_le units (den <<< cut units den)
    have hleft := div_cut_lt units den
    have hunits : units < den <<< (2045 + 52) := (cut_le_iff hden).1 (Nat.le_of_lt_succ hlt)
    rw [hshift] at hunits
    unfold exponentBit at *
    constructor <;> omega
  · -- the middle above the largest significand decides, and a tie goes up
    have hbelow (h : 2 * units < 0x3fffffffffffff * den <<< 2045) :
        roundHalfEven units (den <<< 2045) ≤ 0x1fffffffffffff := roundHalfEven_le_of_lt h
    have habove (h : 0x3fffffffffffff * den <<< 2045 ≤ 2 * units) :
        0x1fffffffffffff < roundHalfEven units (den <<< 2045) := lt_roundHalfEven hpos rfl h
    rw [heq]
    unfold exponentBit
    omega
  · -- the exponent is too large already, and rounding does not lower it
    have hdown := le_roundHalfEven units (den <<< cut units den)
    have hleft : exponentBit ≤ units / den <<< cut units den := le_div_cut (by omega)
    have hunits : ¬units < den <<< (2045 + 53) :=
      fun h => Nat.not_le.2 hgt ((cut_le_iff hden).2 h)
    rw [hshift] at hunits
    unfold exponentBit at *
    constructor <;> omega

/-- Places that both sides have fall out of a comparison. -/
theorem lt_shiftLeft_iff (bits low high : Nat) :
    2 * (num * 1 <<< high) < bits * den <<< (low + (high + 1)) ↔ num < bits <<< low * den := by
  have hleft : 2 * (num * 1 <<< high) = num * 2 ^ (high + 1) := by
    rw [Nat.one_shiftLeft, Nat.pow_succ']
    ac_rfl
  have hright : bits * den <<< (low + (high + 1)) = bits <<< low * den * 2 ^ (high + 1) := by
    rw [Nat.shiftLeft_add, Nat.shiftLeft_eq _ (high + 1), Nat.shiftLeft_eq, Nat.shiftLeft_eq]
    generalize 2 ^ (high + 1) = unit
    ac_rfl
  rw [hleft, hright, Nat.mul_lt_mul_right (Nat.two_pow_pos _)]

/-- **A fraction is finite as a double** exactly if it is below `overflow`. -/
theorem isFinite_ofRatio (negative : Bool) (hden : 0 < den) :
    (ofRatio negative num den).isFinite ↔ num < overflow * den := by
  have hmin : min (roundedMagnitude (num * unitsPerOne) den) infinityMagnitude < signBit :=
    Nat.lt_of_le_of_lt (Nat.min_le_right _ _) infinityMagnitude_lt_signBit
  calc
    (ofRatio negative num den).isFinite
      ↔ min (roundedMagnitude (num * unitsPerOne) den) infinityMagnitude < infinityMagnitude := by
        rw [ofRatio_eq, isFinite_ofMagnitude negative hmin, decide_eq_true_iff]
    _ ↔ roundedMagnitude (num * unitsPerOne) den < infinityMagnitude := by omega
    _ ↔ 2 * (num * unitsPerOne) < 0x3fffffffffffff * den <<< 2045 := roundedMagnitude_lt_iff hden
    _ ↔ num < overflow * den := lt_shiftLeft_iff _ 970 1074

@[simp] theorem isFinite_zero (negative : Bool) : (ofMagnitude negative 0).isFinite := by
  rw [isFinite_ofMagnitude negative (by decide)]
  decide

theorem isFinite_neg (x : Double) : (-x).isFinite = x.isFinite := by
  have hlt : x.magnitude < signBit := Nat.mod_lt _ (by decide)
  exact isFinite_ofMagnitude _ hlt

/-! ## Decimal numbers -/

/-- **A decimal number is finite as a double** exactly if it is below `overflow`. -/
theorem isFinite_ofDecimal (negative : Bool) (digits places : Nat) :
    (ofDecimal negative ⟨digits, -(places : Int)⟩).isFinite ↔
      digits < overflow * Decimal.tenTo places := by
  have hone : 0 < overflow := by decide
  have hten : 0 < Decimal.tenTo places := Nat.pow_pos (by decide)
  have hbelow (h : digits < Decimal.tenTo places) : digits < overflow * Decimal.tenTo places :=
    Nat.lt_of_lt_of_le h (Nat.le_mul_of_pos_left _ hone)
  unfold ofDecimal
  dsimp only
  split
  · next hzero => simp [hzero, Nat.mul_pos hone hten]
  split
  · omega
  split
  · next hsmall =>
    -- there are fewer digits than places
    have hlength : digitCount digits ≤ places := by omega
    have hpos : 0 < digitCount digits := Nat.length_toDigits_pos
    have hlt := (Nat.length_toDigits_le_iff (by decide) (Nat.lt_of_lt_of_le hpos hlength)).1 hlength
    simpa using hbelow hlt
  · rw [isFinite_ofRatio negative (by rwa [Int.neg_neg, Int.toNat_natCast]), Int.neg_neg,
      Int.toNat_natCast, Int.toNat_neg_natCast, show Decimal.tenTo 0 = 1 from rfl, Nat.mul_one]

/-! ## Literals -/

/-- Digits are read into the number that those before them have made. -/
theorem readDigits_eq (before : Nat) (ds : List Char) :
    readDigits before ds = before * Decimal.tenTo ds.length + readDigits 0 ds := by
  simp only [readDigits, ← Nat.ofDigitChars_eq_foldl]
  rw [Nat.ofDigitChars_eq_ofDigitChars_zero, Nat.mul_comm]
  rfl

/-- A number of so many digits is below that power of ten. -/
theorem readDigits_lt {ds : List Char} (h : ∀ c ∈ ds, c.isDigit) :
    readDigits 0 ds < Decimal.tenTo ds.length := by
  induction ds with
  | nil => decide
  | cons c ds ih =>
    have hc := Char.isDigit_iff_toNat.1 (h c List.mem_cons_self)
    have hds := ih fun c hc => h c (List.mem_cons_of_mem _ hc)
    have hdigit : c.toNat - '0'.toNat ≤ 9 := Nat.sub_le_sub_right hc.2 '0'.toNat
    have hten : Decimal.tenTo (ds.length + 1) = 10 * Decimal.tenTo ds.length := Nat.pow_succ'
    have hle := Nat.mul_le_mul_right (Decimal.tenTo ds.length) hdigit
    calc
      readDigits 0 (c :: ds) = readDigits (c.toNat - '0'.toNat) ds := by
        rw [readDigits, List.foldl_cons, Nat.mul_zero, Nat.zero_add, readDigits]
      _ = (c.toNat - '0'.toNat) * Decimal.tenTo ds.length + readDigits 0 ds := readDigits_eq _ ds
      _ < Decimal.tenTo (ds.length + 1) := by omega

/-- Text that begins with a digit has no sign and is no word. -/
theorem ofText?_digit {s : String} {c : Char} {cs : List Char} (hs : s.toList = c :: cs)
    (hc : c.isDigit) : ofText? s = readNumber? false s.toList := by
  have hne {d : Char} (hd : d.isDigit = false) : c ≠ d := by
    rintro rfl
    rw [hd] at hc
    cases hc
  have hsign : splitSign (c :: cs) = (false, c :: cs) := by
    unfold splitSign
    split
    · next heq => exact absurd (List.cons.inj heq).1 (hne rfl)
    · next heq => exact absurd (List.cons.inj heq).1 (hne rfl)
    · rfl
  have hupper : ¬(c.val ≥ 'A'.val ∧ c.val ≤ 'Z'.val) := by
    intro h
    simp [Char.isDigit, UInt32.le_iff_toNat_le] at h hc
    omega
  have hlower : c.toLower = c := dif_neg hupper
  have hword (w : String) (hw : w.toList.head?.all fun d => !d.isDigit) :
      ((c :: cs).map Char.toLower == w.toList) = false := by
    rw [List.map_cons, hlower]
    refine beq_false_of_ne fun heq => ?_
    rw [← heq, List.head?_cons, Option.all_some, hc] at hw
    cases hw
  have hinf := hword "inf" (by decide)
  have hinfinity := hword "infinity" (by decide)
  have hnan := hword "nan" (by decide)
  simp only [ofText?, hs, hsign, hinf, hinfinity, hnan, Bool.or_self, Bool.false_eq_true, if_false]

/-- **A decimal literal** is read as a double, which is finite exactly if the
digits in front of the point write a number below `overflow`. -/
theorem exists_ofText?_eq_some {s : String} {whole fraction : List Char}
    (hs : s.toList = whole ++ '.' :: fraction) (hwhole : whole ≠ [])
    (hdigits : ∀ c ∈ whole ++ fraction, c.isDigit) :
    ∃ x, ofText? s = some x ∧ (x.isFinite ↔ readDigits 0 whole < overflow) := by
  have hdot : '.'.isDigit = false := rfl
  have hw : ∀ c ∈ whole, c.isDigit := fun c hc => hdigits c (List.mem_append_left _ hc)
  have hf : ∀ c ∈ fraction, c.isDigit := fun c hc => hdigits c (List.mem_append_right _ hc)
  obtain ⟨c, cs, hcs⟩ := List.exists_cons_of_ne_nil hwhole
  have hc : c.isDigit := hw c (by rw [hcs]; exact List.mem_cons_self)
  have hread : ofText? s = some (ofDecimal false
      ⟨readDigits (readDigits 0 whole) fraction, -(fraction.length : Int)⟩) := by
    rw [ofText?_digit (by rw [hs, hcs]; rfl) hc, hs]
    simp [readNumber?, List.takeWhile_append_of_pos hw, List.dropWhile_append_of_pos hw, hdot,
      List.takeWhile_eq_self_iff.2 hf, List.dropWhile_eq_nil_iff.2 hf, hwhole, readExponent?]
  refine ⟨_, hread, ?_⟩
  rw [isFinite_ofDecimal, readDigits_eq]
  -- the digits behind the point are less than one
  have hlt := readDigits_lt hf
  generalize readDigits 0 fraction = below, Decimal.tenTo fraction.length = unit at hlt
  constructor
  · intro h
    exact Nat.lt_of_mul_lt_mul_right (Nat.lt_of_le_of_lt (Nat.le_add_right _ _) h)
  · intro h
    have hle := Nat.mul_le_mul_right unit h
    rw [Nat.succ_mul] at hle
    omega

end Double

end DiceNotation
