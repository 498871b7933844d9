import DiceNotation.Proofs.Roll.Items
import Mathlib.Data.List.Perm.Basic

/-!
# Dice laid out

Numbering gives dice new orders and sorting puts them in other places, and
neither does anything else. What is done to each die for itself may be done before
or after (`DieSpec.map_arrange`), what holds of every die still does
(`DieSpec.forall_mem_arrange`), and what the dice show is the same but for its
order (`DieSpec.map_arrange_perm`).
-/

namespace DiceNotation

open Counted

/-! ## What holds of every die -/

section Forall

variable {Q : RolledDie → Prop} (hQ : ∀ {d : RolledDie}, Q d → ∀ order, Q (setOrder order d))
  {rolls : List RolledDie}

include hQ

/-- What holds of a die in any place holds of numbered dice. -/
theorem forall_mem_numbered (h : ∀ d ∈ rolls, Q d) : ∀ d ∈ numbered rolls, Q d := by
  intro d hd
  obtain ⟨i, hi, rfl⟩ := List.mem_mapIdx.1 hd
  exact hQ (h _ (List.getElem_mem hi)) i

theorem forall_mem_sorted (order : SortOrder) (h : ∀ d ∈ rolls, Q d) :
    ∀ d ∈ order.apply rolls, Q d :=
  forall_mem_numbered hQ fun d hd => h d (List.mem_mergeSort.1 hd)

/-- So it does of dice that are laid out. -/
theorem DieSpec.forall_mem_arrange {ε : Type} (spec : DieSpec ε) (h : ∀ d ∈ rolls, Q d) :
    ∀ d ∈ spec.arrange rolls, Q d := by
  rw [arrange]
  split
  · exact forall_mem_sorted hQ _ h
  · exact h

end Forall

/-! ## What is done to each die -/

section Map

variable {f : RolledDie → RolledDie}
  (horder : ∀ order d, f (setOrder order d) = setOrder order (f d))
  (hroll : ∀ d, (f d).roll = d.roll) (rolls : List RolledDie)

include horder hroll

/-- Sorting looks at rolls, so what keeps them can be done before or after it. -/
theorem SortOrder.map_apply (order : SortOrder) :
    (order.apply rolls).map f = order.apply (rolls.map f) := by
  rw [apply, map_numbered horder]
  refine congrArg numbered (List.map_mergeSort fun a _ b _ => ?_)
  rw [hroll, hroll]

/-- A sort looks at the faces, so whatever leaves these may be done before it. -/
theorem DieSpec.map_arrange {ε : Type} (spec : DieSpec ε) :
    (spec.arrange rolls).map f = spec.arrange (rolls.map f) := by
  rw [arrange, arrange]
  split
  · exact SortOrder.map_apply horder hroll rolls _
  · rfl

end Map

/-! ## What dice show -/

section Shown

variable {ε β : Type} {g : RolledDie → β} (hg : ∀ d order, g (setOrder order d) = g d)
  (spec : DieSpec ε) (rolls : List RolledDie)

include hg

theorem map_numbered_of_unordered : (numbered rolls).map g = rolls.map g := by
  refine List.ext_getElem (by simp [numbered]) fun i hi hi' => ?_
  simp [numbered, hg]

/-- Laid out are the same dice, in some order. -/
theorem DieSpec.map_arrange_perm : ((spec.arrange rolls).map g).Perm (rolls.map g) := by
  rw [arrange]
  split
  · rw [SortOrder.apply, map_numbered_of_unordered hg]
    exact (List.mergeSort_perm rolls _).map g
  · rfl

end Shown

theorem DieSpec.length_arrange {ε : Type} (spec : DieSpec ε) (rolls : List RolledDie) :
    (spec.arrange rolls).length = rolls.length := by
  simpa using (spec.map_arrange_perm (g := fun _ => ()) (fun _ _ => rfl) rolls).length_eq

end DiceNotation
