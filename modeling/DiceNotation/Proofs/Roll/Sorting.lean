import DiceNotation.Proofs.Number.Sums
import DiceNotation.Proofs.Roll.Layout
import DiceNotation.Proofs.Roll.Ranking
import DiceNotation.Proofs.Roll.Refresh

/-!
# Sorting is for the eye

A sort puts dice in the order of their faces, and leaves those of one face as they stood,
whichever way it goes (`SortOrder.Lays`). Then it numbers them. So it moves the dice that
were dropped and replaced along with the others, and nothing that it writes is read again
before the value is made.

A specification with a sort is the one without, laid out once it is rolled
(`DieSpec.roll_sort`): it draws as much and halts alike. The value is where a sort could
still show, because dice are summed from left to right. If the values that count are
integers and not too far from zero all together, any order has the same sum
(`sumTotals_sort`).
-/

namespace DiceNotation

open Counted

/-! ## A stable order -/

namespace SortOrder

/-- The first face may stand before the second. -/
def Before : SortOrder → Int64 → Int64 → Prop
  | .ascending, a, b => a ≤ b
  | .descending, a, b => b ≤ a

instance (order : SortOrder) (a b : Int64) : Decidable (order.Before a b) :=
  match order with
  | .ascending => inferInstanceAs (Decidable (a ≤ b))
  | .descending => inferInstanceAs (Decidable (b ≤ a))

variable (order : SortOrder) {a b c : Int64} {rolls : List RolledDie}

theorem before_refl (a : Int64) : order.Before a a := by
  cases order <;> exact Int64.le_refl a

theorem before_trans (hab : order.Before a b) (hbc : order.Before b c) : order.Before a c := by
  cases order with
  | ascending => exact Int64.le_trans hab hbc
  | descending => exact Int64.le_trans hbc hab

theorem before_total (a b : Int64) : order.Before a b ∨ order.Before b a := by
  cases order with
  | ascending => exact Int64.le_total a b
  | descending => exact Int64.le_total b a

/-- The dice in the order of their faces, each as it was. -/
def layOut (rolls : List RolledDie) : List RolledDie :=
  rolls.mergeSort fun d e => decide (order.Before d.roll e.roll)

/-- Sorting lays the dice out and numbers them. -/
theorem apply_eq (rolls : List RolledDie) : order.apply rolls = numbered (order.layOut rolls) := by
  rw [apply, layOut]
  cases order <;> rfl

/-- The same dice, in the order of their faces. Those of one face stand as they stood. -/
structure Lays (rolls laid : List RolledDie) : Prop where
  perm : laid.Perm rolls
  ordered : laid.Pairwise fun d e => order.Before d.roll e.roll
  stable : ∀ face : Int64, laid.filter (·.roll = face) = rolls.filter (·.roll = face)

/-- **A sort is stable**, in both directions: dice of one face are in order already. -/
theorem lays_layOut (rolls : List RolledDie) : order.Lays rolls (order.layOut rolls) := by
  have htrans (d e f : RolledDie) (hde : decide (order.Before d.roll e.roll))
      (hef : decide (order.Before e.roll f.roll)) : decide (order.Before d.roll f.roll) := by
    simp only [decide_eq_true_eq] at *
    exact order.before_trans hde hef
  have htotal (d e : RolledDie) :
      decide (order.Before d.roll e.roll) || decide (order.Before e.roll d.roll) := by
    simpa using order.before_total d.roll e.roll
  refine ⟨List.mergeSort_perm .., ?_, fun face => ?_⟩
  · exact (List.pairwise_mergeSort htrans htotal rolls).imp of_decide_eq_true
  · -- the comparison takes both ways between dice of one face, so a reversed one is stable too
    refine filter_mergeSort_of_equal htrans htotal (fun d e hd he => ?_) rolls
    rw [decide_eq_true_eq] at hd he
    rw [hd, he]
    exact decide_eq_true (order.before_refl face)

end SortOrder

/-- The dice that a match marked, wherever they lie. -/
def matchingDice (rolls : List RolledDie) : List RolledDie :=
  (rolls.filter RolledDie.matched).map (setOrder 0)

/-- **A sort keeps the matches**: it moves the dice that are marked, and marks none. -/
theorem matchingDice_sort_perm (order : SortOrder) (rolls : List RolledDie) :
    (matchingDice (order.apply rolls)).Perm (matchingDice rolls) := by
  have hmatched (rolls : List RolledDie) :
      matchingDice rolls = (rolls.map (setOrder 0)).filter RolledDie.matched := by
    rw [matchingDice, List.filter_map]
    rfl
  rw [hmatched, hmatched, order.apply_eq,
    map_numbered_of_unordered (g := setOrder 0) fun _ _ => rfl]
  exact ((order.lays_layOut rolls).perm.map _).filter _

/-! ## Sums -/

/-- The values of the dice that count are integers, and not too far from zero all
together. -/
def ValuesFit (rolls : List RolledDie) : Prop :=
  ∃ xs : List Int64, (rolls.filter valid).map value = xs.map Number.int ∧
    Number.magnitude xs ≤ Number.highest

/-- What such dice add to the sum: the ones that do not count add zero. -/
theorem exists_totals_of_values {rolls : List RolledDie} {values : List Int64}
    (h : (rolls.filter valid).map value = values.map Number.int) :
    ∃ xs : List Int64, rolls.map total = xs.map Number.int ∧
      Number.magnitude xs = Number.magnitude values := by
  induction rolls generalizing values with
  | nil =>
    obtain rfl : values = [] := by simpa using h.symm
    exact ⟨[], rfl, rfl⟩
  | cons d rolls ih =>
    by_cases hvalid : valid d
    · rw [List.filter_cons_of_pos hvalid, List.map_cons] at h
      obtain ⟨x, values, rfl, hx, hvalues⟩ := List.map_eq_cons_iff.1 h.symm
      obtain ⟨xs, htotals, hmagnitude⟩ := ih hvalues.symm
      have htotal : total d = .int x := (if_pos hvalid).trans hx.symm
      refine ⟨x :: xs, by rw [List.map_cons, List.map_cons, htotal, htotals], ?_⟩
      rw [Number.magnitude_cons, Number.magnitude_cons, hmagnitude]
    · -- not among the values, but with a zero of its own among the totals
      rw [List.filter_cons_of_neg hvalid] at h
      obtain ⟨xs, htotals, hmagnitude⟩ := ih h
      have htotal : total d = .int 0 := if_neg hvalid
      refine ⟨0 :: xs, by rw [List.map_cons, List.map_cons, htotal, htotals], ?_⟩
      rw [Number.magnitude_cons, hmagnitude, Int64.toInt_zero, Int.natAbs_zero, Nat.zero_add]

/-- **A sort leaves the sum** of such dice. -/
theorem sumTotals_sort (order : SortOrder) {rolls : List RolledDie} (h : ValuesFit rolls) :
    sumTotals (order.apply rolls) = sumTotals rolls := by
  obtain ⟨values, hvalues, hfits⟩ := h
  obtain ⟨xs, htotals, hmagnitude⟩ := exists_totals_of_values hvalues
  have hperm : ((order.apply rolls).map total).Perm (xs.map Number.int) := by
    rw [order.apply_eq, map_numbered_of_unordered (g := total) (fun _ _ => rfl), ← htotals]
    exact (order.lays_layOut rolls).perm.map total
  obtain ⟨ys, hys, heq⟩ := Number.exists_perm_of_map_int hperm
  rw [sumTotals, sumTotals, htotals, heq]
  exact (Number.sum_eq_of_perm hys (hmagnitude ▸ hfits)).symm

/-! ## Results -/

/-- The result with the dice of its own in the order of their faces, and their sum. -/
def Result.layOut (order : SortOrder) : Result → Result
  | mk outcome (.dice count sides rolls matched) =>
    (mk outcome (.dice count sides (order.apply rolls) matched)).refresh
  | r => r

/-- A label stays on a result that is laid out. -/
theorem Result.layOut_relabel (order : SortOrder) (label : Option String) (r : Result) :
    (r.relabel label).layOut order = (r.layOut order).relabel label := by
  obtain ⟨outcome, shape⟩ := r
  cases shape with
  | dice count sides rolls matched => cases label <;> cases matched <;> rfl
  | number | sum | chain | group | function => cases label <;> rfl

/-- Dice are matched before they are laid out. -/
theorem DieSpec.conclude_sort (spec : DieSpec (Rolling Result)) (order : SortOrder) (count : Result)
    (sides : Sides Result) (rolls : List RolledDie) :
    DieSpec.conclude { spec with sort := some order } count sides rolls =
      Result.layOut order <$> DieSpec.conclude { spec with sort := none } count sides rolls := by
  simp only [conclude, arrange]
  cases spec.matching with
  | none => rfl
  | some m =>
    rw [map_bind]
    refine bind_congr fun faces => ?_
    cases m.counts <;> rfl

/-- **A specification with a sort** is laid out once it is rolled. -/
theorem DieSpec.roll_sort (spec : DieSpec (Rolling Result)) (order : SortOrder) :
    DieSpec.roll { spec with sort := some order } =
      Result.layOut order <$> DieSpec.roll { spec with sort := none } := by
  simp only [roll, map_bind, conclude_sort]
  rfl

/-- A sort lays out what is rolled without it. -/
theorem Node.roll_sort (spec : DieSpec Node) (label : Option String) (order : SortOrder) :
    (term (.die { spec with sort := some order }) label).roll =
      Result.layOut order <$> (term (.die { spec with sort := none }) label).roll := by
  have hform : (Form.map roll (.die { spec with sort := some order })).roll =
      Result.layOut order <$> (Form.map roll (.die { spec with sort := none })).roll :=
    DieSpec.roll_sort (spec.map roll) order
  rw [roll_term, roll_term, Form.rollLabelled, Form.rollLabelled, hform]
  simp [Result.layOut_relabel]

section LayOut

variable {r count : Result} {sides : Sides Result} {rolls : List RolledDie}
  {matched : Bool} (hshape : r.shape = .dice count sides rolls matched) (order : SortOrder)

include hshape

theorem Result.layOut_eq :
    r.layOut order = (mk r.outcome (.dice count sides (order.apply rolls) matched)).refresh := by
  obtain ⟨outcome, shape⟩ := r
  obtain rfl : shape = .dice count sides rolls matched := hshape
  rfl

/-- Laying out sorts the dice and leaves the rest of the shape. -/
theorem Result.shape_layOut :
    (r.layOut order).shape = .dice count sides (order.apply rolls) matched := by
  rw [layOut_eq hshape]
  rfl

/-- It leaves the outcome but for the value. -/
theorem Result.outcome_layOut :
    (r.layOut order).outcome = { r.outcome with value := (r.layOut order).value } := by
  rw [layOut_eq hshape]
  cases matched <;> rfl

/-- **Fresh dice** have the same value, if it counts matches or the values fit. -/
theorem Result.value_layOut (hfresh : r.refresh = r) (h : matched = true ∨ ValuesFit rolls) :
    (r.layOut order).value = r.value := by
  rw [refresh_eq_self_iff, hshape] at hfresh
  rw [layOut_eq hshape]
  cases matched with
  | true => rfl
  | false =>
    -- the value is the sum of the dice as they lay before, and now it is the sum as they lie
    have hvalue : r.value = sumTotals rolls := hfresh rfl
    have hfit : ValuesFit rolls := h.resolve_left (by simp)
    rw [hvalue, ← sumTotals_sort order hfit]
    rfl

end LayOut

/-! ## Expressions -/

/-- What a specification makes is dice. -/
theorem DieSpec.exists_shape_of_answer_roll {spec : DieSpec Node} {label : Option String}
    {σ : Setting} {n d : Nat} {r : Result}
    (h : (Node.term (.die spec) label).roll.answer σ n = (.ok r, d)) :
    ∃ count sides rolls matched, r.shape = .dice count sides rolls matched := by
  rw [Node.roll_term] at h
  obtain ⟨bare, hbare, rfl⟩ := Form.answer_rollLabelled_eq_ok h
  obtain ⟨count, e₁, -, k, e₂, -, sides, kind, e₃, -, rolls, e₄, -, h⟩ :=
    DieSpec.answer_roll_eq_ok.1 hbare
  obtain ⟨faces, matched, hshape⟩ := DieSpec.exists_shape_of_answer_conclude h
  exact ⟨count, sides, _, matched, (Result.shape_relabel ..).trans hshape⟩

/-- **Sorting is for the eye.** A sort puts any dice in the order of their faces, stably,
and changes nothing else in them but their orders, which become their places. So a
specification with a sort draws as much as without, halts alike, and otherwise makes the
same result but for the places of its own dice. The same dice are matched. The value is
the same too if it counts matches, or if the values that count are integers and not
further from zero, all together, than an integer can be. -/
theorem Node.answer_roll_sort (spec : DieSpec Node) (label : Option String) (order : SortOrder)
    (σ : Setting) (n : Nat) :
    (∀ rolls : List RolledDie, ∃ laid, order.Lays rolls laid ∧ order.apply rolls =
        laid.mapIdx fun i d => { d with outcome := { d.outcome with order := i } }) ∧
      (∀ halt d, (term (.die { spec with sort := some order }) label).roll.answer σ n =
          (.error halt, d) ↔
        (term (.die { spec with sort := none }) label).roll.answer σ n = (.error halt, d)) ∧
      ∀ {r : Result} {d : Nat},
        (term (.die { spec with sort := none }) label).roll.answer σ n = (.ok r, d) →
        ∃ r' count sides rolls matched,
          (term (.die { spec with sort := some order }) label).roll.answer σ n = (.ok r', d) ∧
          r.shape = .dice count sides rolls matched ∧
          r'.shape = .dice count sides (order.apply rolls) matched ∧
          (matchingDice (order.apply rolls)).Perm (matchingDice rolls) ∧
          r'.outcome = { r.outcome with value := r'.value } ∧
          (matched = true ∨ ValuesFit rolls → r'.value = r.value) := by
  refine ⟨fun rolls => ⟨_, order.lays_layOut rolls, order.apply_eq rolls⟩, fun halt d => ?_, ?_⟩
  · rw [roll_sort, Rolling.answer_map]
    rcases (term (.die { spec with sort := none }) label).roll.answer σ n with ⟨_ | r, e⟩
    · rfl
    · simp [Except.map]
  · intro r d h
    obtain ⟨count, sides, rolls, matched, hshape⟩ := DieSpec.exists_shape_of_answer_roll h
    -- the value is that of the dice as they lie, so it is the same in another order
    have hfresh : r.refresh = r := givesFresh_roll _ _ _ _ _ h
    refine ⟨r.layOut order, count, sides, rolls, matched, ?_, hshape, r.shape_layOut hshape order,
      matchingDice_sort_perm order rolls, r.outcome_layOut hshape order,
      r.value_layOut hshape order hfresh⟩
    rw [roll_sort, Rolling.answer_map, h]
    rfl

/-- Three dice of which one is rolled again and then two match, in descending order: the
sort takes the replaced one to the end. -/
theorem Node.answer_roll_sort_replaced :
    let spec : DieSpec Node := {
      sides := .numeric (.int 6), count := .int 3, mods := [.again .rerollOnce none],
      matching := some ⟨.int 2, false, none, none⟩ }
    let tenths (k : Nat) : Double := .ofRatio false k 10
    let σ : Setting := ⟨.ofList [tenths 8, tenths 0, tenths 4, tenths 8], 1000⟩
    ∃ r r', (term (.die spec) none).roll.answer σ 0 = (.ok r, 4) ∧
      (term (.die { spec with sort := some .descending }) none).roll.answer σ 0 = (.ok r', 4) ∧
      (r.shape.rolls.filter Counted.valid).map Counted.value = [.int 5, .int 5, .int 3] ∧
      r'.value = .int 13 := by
  intro spec tenths σ
  obtain ⟨r, hr, hr_eq⟩ : ∃ r, (term (.die spec) none).roll.answer σ 0 = (.ok r, 4) ∧
      (r.value, (r.shape.rolls.filter Counted.valid).map Counted.value) =
        (.int 13, [.int 5, .int 5, .int 3]) :=
    Rolling.exists_answer_eq_ok_of_map
      (fun r : Result => (r.value, (r.shape.rolls.filter Counted.valid).map Counted.value))
      (by decide +kernel)
  obtain ⟨hvalue, hvalues⟩ := Prod.mk.inj hr_eq
  obtain ⟨r', count, sides, rolls, matched, hr', hshape, -, -, -, hsame⟩ :=
    (Node.answer_roll_sort spec none .descending σ 0).2.2 hr
  have hfit : ValuesFit rolls := by
    rw [hshape] at hvalues
    exact ⟨[5, 5, 3], hvalues, by decide⟩
  exact ⟨r, r', hr, hr', hvalues, (hsame (.inr hfit)).trans hvalue⟩

end DiceNotation
