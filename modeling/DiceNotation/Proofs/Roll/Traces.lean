import DiceNotation.Proofs.Roll.Laws

/-!
# What became of a die

A die shows what happened to it: that it was rolled again, that it was dropped,
and the face that came up. Its validity and its value are fields of their own,
written by other steps than the flags and the face are. They never part
(`RolledDie.Traced`): a die counts exactly if it was neither rolled again nor
dropped, and until it is converted to a count of successes its value is its face.

Of all other parts of a result only the members of groups are ever taken out of
the sum around them, so a whole roll always counts (`Node.answer_roll_traced`).
-/

namespace DiceNotation

open Counted

namespace RolledDie

/-- The flags of the die account for its validity, and its face for its value as
long as that is no count of successes. -/
structure Traced (d : RolledDie) : Prop where
  valid_iff : d.outcome.valid = true ↔ d.rerolled = false ∧ d.dropped = false
  toInt64_value : d.outcome.success = false → d.outcome.value.toInt64 = d.roll

/-- A die as it is rolled has no trace of anything. -/
theorem traced_ofRoll (kind : DieType) (roll : Int64) (order : Nat) :
    (ofRoll kind roll order).Traced :=
  ⟨by simp [ofRoll], fun _ => rfl⟩

namespace Traced

variable {d : RolledDie}

/-! ## One die -/

theorem setRoll (h : d.Traced) (roll : Int64) : (d.setRoll roll).Traced :=
  ⟨h.valid_iff, fun _ => rfl⟩

/-- A total that is no integer gives the face that is nearest to it. -/
theorem setTotal (h : d.Traced) (total : Number) : (d.setTotal total).Traced :=
  ⟨h.valid_iff, fun _ => rfl⟩

theorem exploded (h : d.Traced) : { d with exploded := true }.Traced :=
  ⟨h.valid_iff, h.toInt64_value⟩

theorem matched (h : d.Traced) : { d with matched := true }.Traced :=
  ⟨h.valid_iff, h.toInt64_value⟩

theorem setOrder (h : d.Traced) (order : Nat) : (setOrder order d).Traced :=
  ⟨h.valid_iff, h.toInt64_value⟩

theorem setCritical (h : d.Traced) (mark : Option Critical) : (d.setCritical mark).Traced := by
  rw [RolledDie.setCritical]
  split
  · exact ⟨h.valid_iff, h.toInt64_value⟩
  · exact h

/-- A die that is rolled again no longer counts, and shows it. -/
theorem replaced (h : d.Traced) : d.replaced.Traced :=
  ⟨by simp [RolledDie.replaced], h.toInt64_value⟩

/-- A step leaves its trace. -/
theorem step {d' : RolledDie} (h : d.Traced) (hstep : Step d d') : d'.Traced := by
  cases hstep with
  | discard => exact ⟨by simp [Counted.discard], h.toInt64_value⟩
  | zero => exact ⟨h.valid_iff, fun hsuccess => by cases hsuccess⟩
  | countOne delta hvalid =>
    rw [countOne]
    split
    next hsuccess =>
      -- the die was a count before, so its face says nothing about its value
      exact ⟨h.valid_iff, fun hnot => absurd (hsuccess.symm.trans hnot) (by simp)⟩
    next => exact ⟨h.valid_iff, fun hsuccess => by cases hsuccess⟩

/-- Changed dice keep their traces. -/
theorem changed {d' : RolledDie} (h : d.Traced) (hd : Changed d d') : d'.Traced := by
  induction hd with
  | refl => exact h
  | tail _ hstep ih => exact ih.step hstep

end Traced

theorem dieLaw_traced : DieLaw Traced where
  rolled := traced_ofRoll
  exploded h := h.exploded
  setRoll h := h.setRoll
  setTotal h := h.setTotal
  replaced h := h.replaced
  setOrder h := h.setOrder

end RolledDie

/-! ## All dice of a specification -/

def AllTraced (rolls : List RolledDie) : Prop := ∀ d ∈ rolls, d.Traced

theorem diceLaw_allTraced : DiceLaw AllTraced where
  toTableLaw := RolledDie.dieLaw_traced.tableLaw (fun hchange h => h.changed hchange)
    fun mark h => h.setCritical mark
  matched faces rolls h d' hd' := by
    obtain ⟨d, hd, rfl⟩ := List.mem_map.1 hd'
    split
    · exact (h d hd).matched
    · exact h d hd
  sorted order _ h := forall_mem_sorted RolledDie.Traced.setOrder order h

/-! ## Expressions -/

/-- The result counts unless it is the member of a group, and its dice are
traced. -/
structure Result.Traced (place : Place) (r : Result) : Prop where
  valid : place.isMember = false → r.outcome.valid = true
  dice : ∀ d ∈ r.shape.rolls, d.Traced

/-- **The flags of every die account for it.** Wherever a die lies in the result
of a roll, it counts exactly if it was neither rolled again nor dropped, and its
value is its face unless it was converted. Only members of groups are ever taken
out of a sum, so the roll as a whole counts, with its value for a total. -/
theorem Node.answer_roll_traced (node : Node) {σ : Setting} {n d : Nat} {r : Result}
    (h : node.roll.answer σ n = (.ok r, d)) :
    r.Everywhere Result.Traced .apart ∧ r.outcome.valid = true ∧ Counted.total r = r.value := by
  have hr := diceLaw_allTraced.obeying_roll node σ n r d h
  have hvalid : r.outcome.valid = true := hr.here.valid rfl
  exact ⟨hr.mono fun _ _ hr => ⟨hr.valid, hr.dice⟩, hvalid, if_pos hvalid⟩

/-- Two dice of which one is rolled again and one dropped, beside a number that
their group takes out. -/
theorem Node.answer_roll_traced_dropped :
    let dice : Node := .term (.die {
      sides := .numeric (.int 6), count := .int 2,
      mods := [.again .rerollOnce none, .select .drop none (.int 1)] }) none
    let group : Node := .term (.group dice [.int 3] [.select .keep none (.int 1)]) none
    let tenths (k : Nat) : Double := .ofRatio false k 10
    ∃ r, group.roll.answer ⟨.ofList [tenths 0, tenths 9, tenths 5], 1000⟩ 0 = (.ok r, 3) ∧
      r.Everywhere Result.Traced .apart ∧ r.outcome.valid = true ∧
        Counted.total r = r.value := by
  intro dice group tenths
  obtain ⟨r, hr⟩ : ∃ r, group.roll.answer
      ⟨.ofList [tenths 0, tenths 9, tenths 5], 1000⟩ 0 = (.ok r, 3) :=
    Rolling.exists_answer_eq_ok (by decide +kernel)
  exact ⟨r, hr, Node.answer_roll_traced group hr⟩

end DiceNotation
