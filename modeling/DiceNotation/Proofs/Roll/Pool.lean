import DiceNotation.Proofs.Roll.Places
import DiceNotation.Roll.Pool
import Mathlib.Data.List.Forall2

/-!
# Pools, refilled and refreshed

The pool of a sum is the pools of its terms, one after the other. Refilling
takes as many dice as the pool has and puts them where the pool was
(`pool_refill`), and refreshing leaves them there (`pool_refresh`).
-/

namespace DiceNotation

/-- Two lists that are matched one after the other each take their own part. -/
theorem forall₂_append_take {α β : Type} {R : α → β → Prop} {l m : List α} {supply : List β}
    (h : List.Forall₂ R (l ++ m) (supply.take (l ++ m).length)) :
    List.Forall₂ R l (supply.take l.length) ∧
      List.Forall₂ R m ((supply.drop l.length).take m.length) := by
  rw [List.length_append] at h
  have hl := List.forall₂_take l.length h
  have hm := List.forall₂_drop l.length h
  rw [List.take_left, List.take_take, Nat.min_eq_left (Nat.le_add_right _ _)] at hl
  rw [List.drop_left, List.drop_take, Nat.add_sub_cancel_left] at hm
  exact ⟨hl, hm⟩

namespace Result

theorem poolAll_eq_flatMap (terms : List Result) : poolAll terms = terms.flatMap pool := by
  induction terms with
  | nil => rw [poolAll, List.flatMap_nil]
  | cons term rest ih => rw [poolAll, ih, List.flatMap_cons]

theorem refreshAll_eq_map (terms : List Result) : refreshAll terms = terms.map refresh := by
  induction terms with
  | nil => rw [refreshAll, List.map_nil]
  | cons term rest ih => rw [refreshAll, ih, List.map_cons]

/-- **Induction over sums**: results without terms that sums lead to, and sums
of results. -/
theorem sum_induction {P : Result → Prop}
    (sum : ∀ outcome terms ops, (∀ t ∈ terms, P t) → P (mk outcome (.sum terms ops)))
    (other : ∀ outcome shape, (∀ terms ops, shape ≠ .sum terms ops) → P (mk outcome shape)) :
    ∀ r, P r := by
  intro r
  induction r using Result.induction with
  | h r ih =>
    obtain ⟨outcome, shape⟩ := r
    cases shape with
    | sum terms ops => exact sum outcome terms ops ih
    | number | dice | chain | group | function => exact other _ _ (by simp)

/-- A refresh leaves the dice of a pool. -/
@[simp] theorem pool_refresh (r : Result) : r.refresh.pool = r.pool := by
  induction r using sum_induction with
  | sum outcome terms ops ih =>
    rw [refresh, pool, pool, poolAll_eq_flatMap, poolAll_eq_flatMap, refreshAll_eq_map,
      List.flatMap_map]
    exact List.flatMap_congr ih
  | other outcome shape h =>
    cases shape with
    | sum terms ops => exact absurd rfl (h terms ops)
    | number | dice | chain | group | function => simp only [refresh, pool]

/-- The shape decides what is in the pool. -/
theorem pool_congr {r s : Result} (h : r.shape = s.shape) : r.pool = s.pool := by
  obtain ⟨outcome, shape⟩ := r
  obtain ⟨outcome', shape'⟩ := s
  obtain rfl : shape = shape' := h
  cases shape <;> simp only [pool]

theorem isPooled_congr {r s : Result} (h : r.shape = s.shape) : r.isPooled = s.isPooled := by
  obtain ⟨outcome, shape⟩ := r
  obtain ⟨outcome', shape'⟩ := s
  obtain rfl : shape = shape' := h
  cases shape <;> rfl

/-- **Refilling** puts dice where the pool was, and leaves the others. -/
theorem pool_refill (r : Result) (supply : List RolledDie) :
    (refill r supply).1.pool = supply.take r.pool.length ∧
      (refill r supply).2 = supply.drop r.pool.length := by
  induction r using sum_induction generalizing supply with
  | sum outcome terms ops ih =>
    rw [refill, pool, pool]
    induction terms generalizing supply with
    | nil => simp [refillAll, poolAll]
    | cons term rest ih' =>
      obtain ⟨hpool, hleft⟩ := ih term List.mem_cons_self supply
      obtain ⟨hpool', hleft'⟩ := ih' (fun t ht => ih t (List.mem_cons_of_mem _ ht))
        (supply.drop term.pool.length)
      simp only [refillAll, poolAll, hleft] at hpool' hleft' ⊢
      rw [hpool, hpool', hleft', List.length_append, List.take_add, List.drop_drop]
      exact ⟨rfl, rfl⟩
  | other outcome shape h =>
    cases shape with
    | sum terms ops => exact absurd rfl (h terms ops)
    | number | dice | chain | group | function => simp [refill, pool]

/-- As many new dice as there were are the new pool. -/
theorem pool_refill_refresh {r : Result} {dice : List RolledDie}
    (h : dice.length = r.pool.length) : (refill r dice).1.refresh.pool = dice := by
  rw [pool_refresh, (pool_refill r dice).1, ← h, List.take_length]

/-- If the new dice are related to those of the pool, one by one, then every
term is refilled with dice that are related to its own. -/
theorem forall₂_refillAll_related {R : RolledDie → RolledDie → Prop} {terms : List Result}
    {supply : List RolledDie}
    (h : List.Forall₂ R (poolAll terms) (supply.take (poolAll terms).length)) :
    List.Forall₂ (fun t t' => ∃ s, List.Forall₂ R t.pool (s.take t.pool.length) ∧
      t' = (refill t s).1) terms (refillAll terms supply).1 := by
  induction terms generalizing supply with
  | nil => exact .nil
  | cons term rest ih =>
    rw [poolAll] at h
    obtain ⟨hterm, hrest⟩ := forall₂_append_take h
    rw [refillAll]
    refine .cons ⟨supply, hterm, rfl⟩ (ih ?_)
    rwa [(pool_refill term supply).2]

end Result

end DiceNotation
