import DiceNotation.Proofs.Double.Rounding
import DiceNotation.Proofs.Roll.Layers
import DiceNotation.Proofs.Roll.Steps

/-!
# Raising the ceiling

A ceiling is looked at once for every die specification, to refuse it. So what a
roll gives under one ceiling it gives under a higher one too, at every depth, as
long as the higher one also compares as higher. The comparison takes both as
signed integers and then as doubles. Rounding keeps their order; the sign does
not: a ceiling of `2 ^ 63` or more counts as negative and refuses every count
that is not negative itself (`Number.zero_above_int`), though it is there to
say that there is no limit. That is the only way in which raising a ceiling
breaks a roll.
-/

namespace DiceNotation

/-! ## Comparing with a ceiling -/

namespace Number

/-- To be above is to have the greater double, neither of them being a NaN. -/
theorem above_eq_true {x y : Number} :
    x.above y = true ↔
      x.toDouble.isNaN = false ∧ y.toDouble.isNaN = false ∧
        y.toDouble.rank < x.toDouble.rank := by
  rw [above, Bool.and_eq_true, Bool.not_eq_true', ← Bool.not_eq_true, atLeast_iff, same_iff]
  constructor
  · rintro ⟨⟨hx, hy, hle⟩, hne⟩
    have hne : x.toDouble.rank ≠ y.toDouble.rank := fun h => hne ⟨hx, hy, h⟩
    exact ⟨hx, hy, by omega⟩
  · rintro ⟨hx, hy, hlt⟩
    exact ⟨⟨hx, hy, Int.le_of_lt hlt⟩, fun h => Int.ne_of_gt hlt h.2.2⟩

/-- What is above a number is above all lower ones. -/
theorem above_int_of_le {x : Number} {low high : Int64} (h : low ≤ high)
    (hx : x.above (.int high) = true) : x.above (.int low) = true := by
  rw [above_eq_true] at hx ⊢
  obtain ⟨hnan, -, hrank⟩ := hx
  have := Double.rank_ofInt_mono (Int64.le_iff_toInt_le.1 h)
  refine ⟨hnan, Double.isNaN_ofInt _, ?_⟩
  simp only [toDouble] at hrank ⊢
  omega

/-- No dice are more than a ceiling allows exactly if it counts as negative. -/
theorem zero_above_int {ceiling : Int64} : zero.above (.int ceiling) = true ↔ ceiling < 0 := by
  refine ⟨fun h => ?_, fun h => ?_⟩
  · by_contra hneg
    have hzero : zero.above (.int 0) = true :=
      above_int_of_le (Int64.not_lt.1 hneg) h
    exact absurd hzero (by decide +kernel)
  · have hle : ceiling ≤ -1 := by
      rw [Int64.lt_iff_toInt_lt] at h
      rw [Int64.le_iff_toInt_le]
      have hzero : (0 : Int64).toInt = 0 := rfl
      have hone : (-1 : Int64).toInt = -1 := rfl
      omega
    exact above_int_of_le hle (by decide +kernel)

end Number

/-- A ceiling as the comparison takes it. -/
theorem toInt_toInt64 (m : UInt64) :
    m.toInt64.toInt =
      if m.toNat < 0x8000000000000000 then (m.toNat : Int) else m.toNat - 0x10000000000000000 := by
  have h : m.toInt64.toInt = if 2 * m.toNat < 2 ^ 64 then (m.toNat : Int)
      else m.toNat - (2 ^ 64 : Nat) := BitVec.toInt_eq_toNat_cond _
  omega

/-- Two ceilings change their order only where the higher one changes its sign. -/
theorem sign_of_not_toInt64_le {m m' : UInt64} (hm : m ≤ m') (h : ¬m.toInt64 ≤ m'.toInt64) :
    0 ≤ m.toInt64 ∧ m'.toInt64 < 0 := by
  rw [UInt64.le_iff_toNat_le] at hm
  have hzero : (0 : Int64).toInt = 0 := rfl
  have := m'.toNat_lt
  rw [Int64.le_iff_toInt_le, toInt_toInt64, toInt_toInt64] at h
  rw [Int64.le_iff_toInt_le, Int64.lt_iff_toInt_lt, toInt_toInt64, toInt_toInt64]
  omega

/-! ## The same roll under another ceiling -/

namespace Rolling

variable {α : Type} {low high : UInt64}

/-- What the computation gives under the one ceiling, it gives under the other,
after the same draws. -/
def Outlasts (low high : UInt64) (m : Rolling α) : Prop :=
  ∀ supply n a d, m.answer ⟨supply, low⟩ n = (.ok a, d) → m.answer ⟨supply, high⟩ n = (.ok a, d)

theorem outlasts_refuse (e : RollError) : Outlasts low high (refuse e : Rolling α) := by
  intro supply n a d h
  cases h

theorem outlasts_closed : Closed (fun _ m => Outlasts low high m) where
  pure a _ _ _ _ h := h
  bind hm hf supply n b d h := by
    obtain ⟨a, e, ha, hb⟩ := answer_bind_eq_ok.1 h
    exact answer_bind_eq_ok.2 ⟨a, e, hm _ _ _ _ ha, hf a _ _ _ _ hb⟩

/-- A face that was drawn is drawn under any ceiling. -/
theorem outlasts_rollFace (kind : DieType) : Outlasts low high kind.rollFace := by
  intro supply n a d h
  rwa [answer_rollFace] at h ⊢

/-- What a re-roll gives under one ceiling it gives under any. -/
theorem outlasts_rerollChain (kind : DieType) (trigger : Condition Number) (fuel : Nat)
    (before : List RolledDie) (die : RolledDie) :
    Outlasts low high (rerollChain kind trigger fuel before die) := by
  induction fuel generalizing before die with
  | zero =>
    intro supply n a d h
    cases h
  | succ fuel ih =>
    rw [rerollChain]
    split
    · refine outlasts_closed.bind ?_ fun next => ih _ _
      exact outlasts_closed.bind (outlasts_rollFace kind) fun _ => outlasts_closed.pure _
    · exact outlasts_closed.pure _

/-- **A count that passes the lower ceiling passes the higher one**; no other
step looks at it. -/
theorem outlasts_ofSteps (h : low.toInt64 ≤ high.toInt64) :
    OfSteps (fun _ m => Outlasts low high m) where
  toClosed := outlasts_closed
  refuse e _ := outlasts_refuse e
  diceCount requested supply n k d hk := by
    rw [answer_diceCount] at hk ⊢
    dsimp only at hk ⊢
    by_cases habove : requested.above (.int low.toInt64)
    · rw [if_pos habove] at hk
      cases hk
    · rw [if_neg habove] at hk
      rwa [if_neg fun hhigh => habove (Number.above_int_of_le h hhigh)]
  rollFace := outlasts_rollFace
  rollMany kind k supply n rolls d hk := by
    rwa [answer_rollMany] at hk ⊢
  rerollToMiss kind trigger die supply n rolls d hr := by
    rw [answer_rerollToMiss] at hr ⊢
    exact outlasts_rerollChain kind trigger _ _ _ _ _ _ _ hr

end Rolling

/-! ## Expressions -/

/-- A roll that ends under one ceiling ends alike under a higher one. -/
theorem Node.outlasts_roll {low high : UInt64} (h : low.toInt64 ≤ high.toInt64) (node : Node) :
    Rolling.Outlasts low high node.roll :=
  (Rolling.outlasts_ofSteps h).node (fun _ => Rolling.outlasts_refuse) node

/-- A specification whose count is above the ceiling is refused at its count. -/
theorem Node.answer_roll_of_above {spec : DieSpec Node} {label : Option String} {count : Int64}
    {σ : Setting} (n : Nat) (hcount : spec.count = .int count)
    (h : (Number.int count).above (.int σ.ceiling.toInt64) = true) :
    (Node.term (.die spec) label).roll.answer σ n =
      (.error (.refused (.limitExceeded (.int count) σ.ceiling)), n) := by
  have hroll : spec.count.roll.answer σ n = (.ok (.number (.int count)), n) := by
    rw [hcount]
    rfl
  rw [Node.roll_term]
  refine Rolling.answer_bind_eq_error.2 (.inl ?_)
  refine Rolling.answer_bind_eq_error.2 (.inr ⟨_, n, hroll, ?_⟩)
  refine Rolling.answer_bind_eq_error.2 (.inl ?_)
  rw [Rolling.answer_diceCount]
  exact congrArg (·, n) (if_pos h)

/-- A specification without dice, which no ceiling has a reason to refuse. -/
def Node.noDice : Node :=
  .term (.die { sides := .numeric (.int 6), count := .int 0 }) none

/-- It is refused all the same if the ceiling counts as negative. -/
theorem Node.answer_roll_noDice (σ : Setting) (n : Nat) :
    noDice.roll.answer σ n =
      if σ.ceiling.toInt64 < 0 then (.error (.refused (.limitExceeded .zero σ.ceiling)), n)
      else (.ok (.dice (.number .zero) (.numeric (.number (.int 6))) []), n) := by
  unfold noDice
  by_cases h : σ.ceiling.toInt64 < 0
  · rw [if_pos h]
    exact Node.answer_roll_of_above n rfl (Number.zero_above_int.2 h)
  · rw [if_neg h]
    have hcount := Rolling.answer_diceCount σ n .zero
    have hnone : Number.zero.toCount maxCount = 0 := by decide +kernel
    rw [if_neg fun habove => h (Number.zero_above_int.1 habove), hnone] at hcount
    have hfaces : (Result.number (.int 6)).value.atLeast (.int 1) = true := by decide +kernel
    have hsides : (Sides.numeric (pure (.number (.int 6)))).resolve.answer σ n =
        (.ok (.numeric (.number (.int 6)), .numeric 6), n) := by
      rw [Sides.resolve, Rolling.answer_bind, Rolling.answer_pure]
      simp only [if_pos hfaces]
      rfl
    refine Rolling.answer_bind_eq_ok.2 ⟨_, n, DieSpec.answer_roll_eq_ok.2 ?_, rfl⟩
    exact ⟨_, _, rfl, _, _, hcount, _, _, _, hsides, _, _, rfl, rfl⟩

/-- **Raising the ceiling breaks no roll as long as it is not raised past the
signed integers.** Between two ceilings that compare as they stand, whatever
succeeds under the lower one succeeds under the higher one, with the same result
and the same draws. Between others not even a roll without dice does. -/
theorem Node.answer_roll_raise_ceiling_iff {low high : UInt64} (h : low ≤ high) :
    (∀ (node : Node) (supply : Supply) (n d : Nat) (r : Result),
      node.roll.answer ⟨supply, low⟩ n = (.ok r, d) →
        node.roll.answer ⟨supply, high⟩ n = (.ok r, d)) ↔ low.toInt64 ≤ high.toInt64 := by
  constructor
  · intro hkeeps
    by_contra hturned
    obtain ⟨hlow, hhigh⟩ := sign_of_not_toInt64_le h hturned
    have hgives := Node.answer_roll_noDice ⟨.ofList [], low⟩ 0
    have hrefused := Node.answer_roll_noDice ⟨.ofList [], high⟩ 0
    rw [if_neg (Int64.not_lt.2 hlow)] at hgives
    rw [if_pos hhigh, hkeeps _ _ _ _ _ hgives] at hrefused
    cases hrefused
  · intro hle node supply n d r hr
    exact node.outlasts_roll hle _ _ _ _ hr

/-- Two dice under the usual ceiling, and under the highest one that compares as
it stands. -/
theorem Node.answer_roll_raise_ceiling_highest :
    let dice : Node := .term (.die { sides := .numeric (.int 6), count := .int 2 }) none
    let values : Supply := .ofList [.zero, .zero]
    (1000 : UInt64) ≤ 0x7fffffffffffffff ∧
      ∃ r, dice.roll.answer ⟨values, 1000⟩ 0 = (.ok r, 2) ∧
        dice.roll.answer ⟨values, 0x7fffffffffffffff⟩ 0 = (.ok r, 2) := by
  intro dice values
  have hle : (1000 : UInt64) ≤ 0x7fffffffffffffff := by decide
  obtain ⟨r, hr⟩ : ∃ r, dice.roll.answer ⟨values, 1000⟩ 0 = (.ok r, 2) :=
    Rolling.exists_answer_eq_ok (by decide +kernel)
  have hkeeps := (Node.answer_roll_raise_ceiling_iff hle).2 (by decide)
  exact ⟨hle, r, hr, hkeeps dice values 0 2 r hr⟩

/-- **One more, and there is no roll**: two dice are refused for a ceiling of
`2 ^ 63`, which the error gives as the limit. -/
theorem Node.answer_roll_ceiling_wraps :
    let dice : Node := .term (.die { sides := .numeric (.int 6), count := .int 2 }) none
    let values : Supply := .ofList [.zero, .zero]
    (1000 : UInt64) ≤ 0x8000000000000000 ∧
      (∃ r, dice.roll.answer ⟨values, 1000⟩ 0 = (.ok r, 2)) ∧
        dice.roll.answer ⟨values, 0x8000000000000000⟩ 0 =
          (.error (.refused (.limitExceeded (.int 2) 0x8000000000000000)), 0) := by
  intro dice values
  have habove : (Number.int 2).above (.int (UInt64.toInt64 0x8000000000000000)) = true := by
    decide +kernel
  refine ⟨by decide, Rolling.exists_answer_eq_ok (by decide +kernel), ?_⟩
  exact Node.answer_roll_of_above 0 rfl habove

end DiceNotation
