import DiceNotation.Number
import Mathlib.Algebra.BigOperators.Group.List.Basic
import Mathlib.Algebra.Order.BigOperators.Group.List
import Mathlib.Algebra.Order.Ring.Int
import Mathlib.Algebra.Order.Ring.Nat
import Mathlib.Data.List.Infix

/-!
# Sums that fit

An integer of a roll is the one that it is read from, if that fits, and a sum of
such integers is exact if it fits too. The left-to-right sum of a list needs that
of every sum along the way (`Number.SumsFit`); then it is the sum in `Int`
(`Number.SumsFit.sum_eq`), and no step of it went over to doubles. If the integers are
not too far from zero all together, the sums along the way fit in any order, so the
order does not matter (`Number.sum_eq_of_perm`).
-/

namespace DiceNotation

namespace Number

theorem toInt_ofInt {n : Int} (h : Fits n) : (Int64.ofInt n).toInt = n :=
  Int64.toInt_ofInt_of_le h.1 (Int.lt_add_one_of_le h.2)

theorem fits_toInt (x : Int64) : Fits x.toInt :=
  ⟨x.le_toInt, Int.le_sub_one_of_lt x.toInt_lt⟩

theorem fits_of_natAbs {n : Int} (h : n.natAbs ≤ highest) : Fits n := by
  unfold Fits lowest
  unfold highest at *
  omega

/-- A sum that fits is not wrapped around. -/
theorem toInt_add {x y : Int64} (h : Fits (x.toInt + y.toInt)) :
    (x + y).toInt = x.toInt + y.toInt := by
  obtain ⟨hlow, hhigh⟩ := h
  unfold lowest highest at *
  rw [Int64.toInt_add]
  exact Int.bmod_eq_of_le (by omega) (by omega)

theorem toInt_sub {x y : Int64} (h : Fits (x.toInt - y.toInt)) :
    (x - y).toInt = x.toInt - y.toInt := by
  obtain ⟨hlow, hhigh⟩ := h
  unfold lowest highest at *
  rw [Int64.toInt_sub]
  exact Int.bmod_eq_of_le (by omega) (by omega)

theorem int_add_int {x y : Int64} (h : Fits (x.toInt + y.toInt)) :
    Number.int x + .int y = .int (Int64.ofInt (x.toInt + y.toInt)) :=
  if_pos h

/-- The sums from the left, on top of what is there, fit all along the list. -/
def SumsFit (start : Int) (xs : List Int64) : Prop :=
  ∀ k, Fits (start + ((xs.take k).map Int64.toInt).sum)

variable {start : Int} {x : Int64} {xs : List Int64}

theorem SumsFit.fits_start (h : SumsFit start xs) : Fits start := by
  simpa using h 0

/-- Where all sums on the way fit, the last one does. -/
theorem SumsFit.fits_sum (h : SumsFit start xs) : Fits (start + (xs.map Int64.toInt).sum) := by
  simpa using h xs.length

theorem SumsFit.tail (h : SumsFit start (x :: xs)) : SumsFit (start + x.toInt) xs := by
  intro k
  simpa [Int.add_assoc] using h (k + 1)

/-- Without negative integers, the sums of a part fit if the whole sum does. -/
theorem sumsFit_of_sublist {ys : List Int64} (h : xs.Sublist ys) (hys : ∀ y ∈ ys, 0 ≤ y.toInt)
    (hsum : (ys.map Int64.toInt).sum ≤ highest) : SumsFit 0 xs := by
  intro k
  have hpart : ((xs.take k).map Int64.toInt).Sublist (ys.map Int64.toInt) :=
    ((List.take_sublist k xs).trans h).map _
  have hnonneg : ∀ n ∈ ys.map Int64.toInt, 0 ≤ n := by simpa using hys
  have hle := hpart.sum_le_sum hnonneg
  have hsum_nonneg := List.sum_nonneg fun n hn => hnonneg n (hpart.subset hn)
  rw [Int.zero_add, Fits]
  unfold lowest
  omega

/-- **A sum that fits all along** is the one in `Int`. -/
theorem SumsFit.foldl_eq {s : Int64} (h : SumsFit s.toInt xs) :
    (xs.map Number.int).foldl (· + ·) (.int s) =
      .int (Int64.ofInt (s.toInt + (xs.map Int64.toInt).sum)) := by
  induction xs generalizing s with
  | nil => simp
  | cons x xs ih =>
    have hfits := h.tail.fits_start
    have htail : SumsFit (Int64.ofInt (s.toInt + x.toInt)).toInt xs :=
      (toInt_ofInt hfits).symm ▸ h.tail
    rw [List.map_cons, List.foldl_cons, int_add_int hfits, ih htail, toInt_ofInt hfits]
    simp [Int.add_assoc]

/-- Where all sums on the way fit, the sum is the integer that it should be. -/
theorem SumsFit.sum_eq (h : SumsFit 0 xs) :
    Number.sum (xs.map Number.int) = .int (Int64.ofInt (xs.map Int64.toInt).sum) := by
  have hsum := SumsFit.foldl_eq (s := 0) h
  rwa [Int64.toInt_zero, Int.zero_add] at hsum

/-- The integer that a list of integers sums up to, if that fits. -/
def sumInt (xs : List Int64) : Int64 := Int64.ofInt (xs.map Int64.toInt).sum

/-- Then adding without a check gives the same. -/
theorem SumsFit.toInt_sumInt (h : SumsFit 0 xs) : (sumInt xs).toInt = (xs.map Int64.toInt).sum :=
  toInt_ofInt (by simpa using h.fits_sum)

section Flatten

variable {chains : List (List Int64)}

/-- The sum of all chains is the sum of their sums. -/
theorem sum_toInt_flatten (h : ∀ c ∈ chains, SumsFit 0 c) :
    ((chains.map sumInt).map Int64.toInt).sum = (chains.flatten.map Int64.toInt).sum := by
  rw [List.map_map, List.map_flatten, List.sum_flatten, List.map_map]
  exact congrArg List.sum (List.map_congr_left fun c hc => (h c hc).toInt_sumInt)

/-- The sums of the parts fit all along, if those of the whole and of each part do. -/
theorem SumsFit.parts (hparts : ∀ c ∈ chains, SumsFit 0 c) (h : SumsFit 0 chains.flatten) :
    SumsFit 0 (chains.map sumInt) := by
  intro k
  have hprefix : (chains.take k).flatten <+: chains.flatten := (List.take_prefix k chains).flatten
  rw [← List.map_take, sum_toInt_flatten fun c hc => hparts c (List.mem_of_mem_take hc),
    List.prefix_iff_eq_take.1 hprefix]
  exact h _

/-- **A sum can be taken in parts**, as long as nothing leaves the integers. -/
theorem SumsFit.sum_flatten (hparts : ∀ c ∈ chains, SumsFit 0 c) (h : SumsFit 0 chains.flatten) :
    Number.sum ((chains.map sumInt).map Number.int) =
      Number.sum (chains.flatten.map Number.int) := by
  rw [h.sum_eq, (SumsFit.parts hparts h).sum_eq, sum_toInt_flatten hparts]

end Flatten

section Magnitude

variable {ys : List Int64}

/-- How far integers are from zero, all together. -/
def magnitude (xs : List Int64) : Nat := (xs.map fun x => x.toInt.natAbs).sum

theorem magnitude_cons (x : Int64) (xs : List Int64) :
    magnitude (x :: xs) = x.toInt.natAbs + magnitude xs := by
  rw [magnitude, List.map_cons, List.sum_cons, magnitude]

/-- No sum is larger than the magnitudes together. -/
theorem natAbs_sum_le_magnitude (xs : List Int64) :
    (xs.map Int64.toInt).sum.natAbs ≤ magnitude xs := by
  have hle := List.le_sum_of_subadditive Int.natAbs (by decide) Int.natAbs_add_le
    (xs.map Int64.toInt)
  rwa [List.map_map] at hle

theorem magnitude_take_le (xs : List Int64) (k : Nat) : magnitude (xs.take k) ≤ magnitude xs :=
  ((List.take_sublist k xs).map _).sum_le_sum fun _ _ => Nat.zero_le _

theorem magnitude_eq_of_perm (h : xs.Perm ys) : magnitude xs = magnitude ys := (h.map _).sum_eq

/-- No sum along the way is further from zero than all the integers together. -/
theorem sumsFit_of_magnitude (h : magnitude xs ≤ highest) : SumsFit 0 xs := by
  intro k
  have hsum := natAbs_sum_le_magnitude (xs.take k)
  have htake := magnitude_take_le xs k
  rw [Int.zero_add]
  exact fits_of_natAbs (by omega)

/-- Numbers that are integers in some order are integers. -/
theorem exists_perm_of_map_int {ns : List Number} (h : ns.Perm (xs.map Number.int)) :
    ∃ ys, xs.Perm ys ∧ ns = ys.map Number.int := by
  have hint : ∀ n ∈ ns, Number.int n.toInt64 = n := by
    intro n hn
    obtain ⟨x, -, rfl⟩ := List.mem_map.1 (h.subset hn)
    rfl
  refine ⟨ns.map toInt64, ?_, ?_⟩
  · simpa [Function.comp_def, toInt64] using (h.map toInt64).symm
  · rw [List.map_map]
    exact (List.map_id' ns).symm.trans (List.map_congr_left fun n hn => (hint n hn).symm)

/-- **The order does not matter** to a sum of integers that are not too far from zero. -/
theorem sum_eq_of_perm (h : xs.Perm ys) (hfits : magnitude xs ≤ highest) :
    sum (xs.map Number.int) = sum (ys.map Number.int) := by
  have hfits' : magnitude ys ≤ highest := by rwa [← magnitude_eq_of_perm h]
  rw [(sumsFit_of_magnitude hfits).sum_eq, (sumsFit_of_magnitude hfits').sum_eq,
    (h.map Int64.toInt).sum_eq]

end Magnitude

end Number

end DiceNotation
