import DiceNotation.Proofs.Roll.Items
import Mathlib.Data.List.Nodup
import Mathlib.Data.List.Perm.Basic

/-!
# Who is kept and who is dropped

A selection ranks the items that still count and takes out those at the front of
the ranking. The sort that makes the ranking looks at ranks alone, and that equal
items keep their order is a property of merge sort (`pairwise_mergeSort_stable`);
with it the ranking is one list without repetitions, in which it is decided of
any two items which one comes first (`pairwise_ranking`).

So what is taken out is a front part of that list and what is left is the rest of
it (`Counted.selected_selectItems`), and the number that was asked for says where
it is cut.
-/

namespace DiceNotation

open Counted

/-! ## Stable sorting -/

section Stable

variable {α : Type} {le : α → α → Bool} (htrans : ∀ a b c, le a b → le b c → le a c)
  (htotal : ∀ a b, (le a b || le b a) = true)

include htrans htotal

/-- Items that are all equal stay as they were among themselves. -/
theorem filter_mergeSort_of_equal {p : α → Bool} (hp : ∀ a b, p a → p b → le a b) (l : List α) :
    (l.mergeSort le).filter p = l.filter p := by
  have hequal : (l.filter p).Pairwise fun a b => le a b = true :=
    List.pairwise_of_forall_mem_list fun a ha b hb =>
      hp a b (List.mem_filter.1 ha).2 (List.mem_filter.1 hb).2
  have hsub : (l.filter p).Sublist (l.mergeSort le) :=
    List.sublist_mergeSort htrans htotal hequal List.filter_sublist
  have hsub' : (l.filter p).Sublist ((l.mergeSort le).filter p) := by
    simpa using hsub.filter p
  -- the sort is a permutation, so there is nothing else that the filter lets through
  refine (hsub'.eq_of_length ?_).symm
  exact ((List.mergeSort_perm l le).filter p).length_eq.symm

/-- **Merge sort is stable**: what held of every item and those after it still holds
where the items are equal. -/
theorem pairwise_mergeSort_stable {R : α → α → Prop} {l : List α} (h : l.Pairwise R) :
    (l.mergeSort le).Pairwise fun a b => le a b ∧ (le b a → R a b) := by
  refine List.pairwise_iff_forall_sublist.2 fun {a b} hab => ?_
  have hle : le a b :=
    List.pairwise_iff_forall_sublist.1 (List.pairwise_mergeSort htrans htotal l) hab
  refine ⟨hle, fun hba => ?_⟩
  -- the items that are equal to `a`, among which `b` is
  let p : α → Bool := fun c => le a c && le c a
  have hp : ∀ c d, p c → p d → le c d := by
    intro c d hc hd
    exact htrans c a d (Bool.and_eq_true_iff.1 hc).2 (Bool.and_eq_true_iff.1 hd).1
  have haa : le a a := by simpa using htotal a a
  have hpair : [a, b].filter p = [a, b] := by simp [p, hle, hba, haa]
  have hfilter := hab.filter p
  rw [filter_mergeSort_of_equal htrans htotal hp, hpair] at hfilter
  exact List.pairwise_iff_forall_sublist.1 h (hfilter.trans List.filter_sublist)

end Stable

/-! ## The ranking -/

section Ranking

variable {α : Type} [Counted α] (key : α → Number) (descending : Bool) (items : List α)

/-- Of two items, given by what is looked up of them and by their positions, the
first stands before the second: the totally ordered values decide, in the given
direction, and if they are equal the positions do. -/
def Ahead (descending : Bool) (p q : Number × Nat) : Prop :=
  (if descending then q.1.totalCompare p.1 else p.1.totalCompare q.1) = .lt ∨
    p.1.totalCompare q.1 = .eq ∧ p.2 < q.2

/-- The items that count, as their ranks and positions, in the order of the list. -/
def ranks : List (Int × Nat) :=
  (items.zipIdx.filter fun p => valid p.1).map fun p => (rankOf key p.1, p.2)

/-- The comparison that the ranks are sorted by. -/
def notBehind (p q : Int × Nat) : Bool :=
  if descending then decide (q.1 ≤ p.1) else decide (p.1 ≤ q.1)

/-- The ranking is a stable sort of what counts, by rank. -/
theorem ranking_eq :
    ranking key descending items =
      ((ranks key items).mergeSort (notBehind descending)).map Prod.snd := rfl

/-- Ranked is what counts, with its rank and its position. -/
theorem mem_ranks {p : Int × Nat} :
    p ∈ ranks key items ↔
      ∃ hi : p.2 < items.length, valid items[p.2] ∧ p.1 = rankOf key items[p.2] := by
  obtain ⟨rank, i⟩ := p
  simp only [ranks, List.mem_map, List.mem_filter]
  constructor
  · rintro ⟨⟨a, j⟩, ⟨hmem, hvalid⟩, heq⟩
    obtain ⟨hj, ha⟩ := List.mem_zipIdx' hmem
    obtain ⟨rfl, rfl⟩ := Prod.mk.inj heq
    exact ⟨hj, ha ▸ hvalid, by rw [ha]⟩
  · rintro ⟨hi, hvalid, hrank⟩
    have hmem := List.mk_mem_zipIdx_iff_getElem?.2 (List.getElem?_eq_getElem hi)
    exact ⟨(items[i], i), ⟨hmem, hvalid⟩, Prod.ext hrank.symm rfl⟩

/-- Positions come in the order of the list. -/
theorem pairwise_ranks : (ranks key items).Pairwise fun p q => p.2 < q.2 := by
  have hplaces : items.zipIdx.Pairwise fun p q => p.2 < q.2 := by
    have := List.pairwise_lt_range' (s := 0) (n := items.length)
    rwa [← List.zipIdx_map_snd, List.pairwise_map] at this
  exact List.pairwise_map.2 (hplaces.filter _)

/-- The ranking is of the items that count. -/
theorem mem_ranking {i : Nat} :
    i ∈ ranking key descending items ↔ ∃ hi : i < items.length, valid items[i] := by
  simp only [ranking_eq, List.mem_map, List.mem_mergeSort, mem_ranks]
  constructor
  · rintro ⟨p, ⟨hi, hvalid, -⟩, rfl⟩
    exact ⟨hi, hvalid⟩
  · rintro ⟨hi, hvalid⟩
    exact ⟨(rankOf key items[i], i), ⟨hi, hvalid, rfl⟩, rfl⟩

/-- As many are ranked as count. -/
theorem length_ranking : (ranking key descending items).length = items.countP valid := by
  rw [ranking_eq, List.length_map, List.length_mergeSort, ranks, List.length_map,
    ← List.countP_eq_length_filter]
  conv_rhs => rw [← List.zipIdx_map_fst 0 items, List.countP_map]
  rfl

/-- Nothing is ranked twice. -/
theorem nodup_ranking : (ranking key descending items).Nodup := by
  have hplaces : ((ranks key items).map Prod.snd).Nodup :=
    (List.pairwise_map.2 (pairwise_ranks key items)).imp Nat.ne_of_lt
  rw [ranking_eq]
  exact ((List.mergeSort_perm _ _).map Prod.snd).nodup_iff.2 hplaces

/-- **The ranking is in order**, items that are equal by their positions. -/
theorem pairwise_ranking : (ranking key descending items).Pairwise fun i j =>
    ∀ (hi : i < items.length) (hj : j < items.length),
      Ahead descending (key items[i], i) (key items[j], j) := by
  have htrans : ∀ p q r, notBehind descending p q → notBehind descending q r →
      notBehind descending p r := by
    cases descending <;> simp [notBehind] <;> omega
  have htotal : ∀ p q, (notBehind descending p q || notBehind descending q p) = true := by
    cases descending <;> simp [notBehind] <;> omega
  have hsorted := pairwise_mergeSort_stable htrans htotal (pairwise_ranks key items)
  rw [ranking_eq, List.pairwise_map]
  refine hsorted.imp_of_mem fun {p q} hp hq h hi hj => ?_
  obtain ⟨_, -, hrank⟩ := (mem_ranks key items).1 (List.mem_mergeSort.1 hp)
  obtain ⟨_, -, hrank'⟩ := (mem_ranks key items).1 (List.mem_mergeSort.1 hq)
  obtain ⟨hle, htie⟩ := h
  rw [rankOf] at hrank hrank'
  simp only [Ahead, Number.totalCompare, Double.totalCompare, ← hrank, ← hrank',
    Int.compare_eq_eq]
  cases descending <;> simp [notBehind, Int.compare_eq_lt] at hle htie ⊢ <;> omega

end Ranking

/-! ## Counts that are asked for -/

/-- The number is at least so much, in the view that comparisons take. A NaN never
is. -/
def Number.Reaches (n : Number) (k : Nat) : Prop :=
  n.toDouble.isNaN = false ∧
    if n.toDouble.isFinite then (k * Double.unitsPerOne : Int) ≤ n.toDouble.scaled
    else n.toDouble.isNegative = false

/-- The whole part of the number is `c` once it is brought between zero and the
limit: of the counts up to the limit, the number reaches those up to `c`. -/
def Number.AsksFor (n : Number) (limit c : Nat) : Prop :=
  c ≤ limit ∧ ∀ k, 0 < k → k ≤ limit → (k ≤ c ↔ n.Reaches k)

/-- Truncated division goes no further than the quotient. -/
theorem le_tdiv_iff {k unit : Nat} (hk : 0 < k) (hunit : 0 < unit) (x : Int) :
    (k : Int) ≤ x.tdiv unit ↔ (k * unit : Int) ≤ x := by
  have hunit' : (0 : Int) < unit := Int.natCast_pos.2 hunit
  rcases Int.le_total 0 x with hx | hx
  · rw [Int.tdiv_eq_ediv_of_nonneg hx, Int.le_ediv_iff_mul_le hunit']
  · -- what is cut towards zero does not come up to one
    have hquotient : 0 ≤ (-x).tdiv unit := Int.tdiv_nonneg (by omega) (Int.le_of_lt hunit')
    have hproduct : (0 : Int) < k * unit := Int.mul_pos (Int.natCast_pos.2 hk) hunit'
    rw [Int.neg_tdiv] at hquotient
    omega

/-- **A count is the whole part of its number**, between zero and the limit, and
zero for a NaN. -/
theorem Number.asksFor_toCount (n : Number) (limit : Nat) : n.AsksFor limit (n.toCount limit) := by
  have hunit : 0 < Double.unitsPerOne := by
    rw [Double.unitsPerOne, Nat.one_shiftLeft]
    exact Nat.two_pow_pos 1074
  unfold AsksFor Reaches toCount Double.saturate Double.truncate
  cases hnan : n.toDouble.isNaN with
  | true =>
    simp
    omega
  | false =>
    cases hfinite : n.toDouble.isFinite with
    | true =>
      refine ⟨?_, fun k hk hlimit => ?_⟩
      · simp only [Bool.false_eq_true, if_false, if_true]
        omega
      · simp only [← le_tdiv_iff hk hunit n.toDouble.scaled, Bool.false_eq_true, if_false, if_true,
          true_and]
        omega
    | false =>
      cases hnegative : n.toDouble.isNegative with
      | true =>
        simp
        omega
      | false => simp

/-- How many of `valid` items still count after a selection for `c`. -/
def Selection.leaves (action : Selection) (valid c : Nat) : Nat :=
  match action with
  | .keep => min valid c
  | .drop => valid - min valid c

/-! ## Selections -/

namespace Counted

variable {α : Type} [Counted α]

/-- The second list is the first after a selection that leaves so many items. -/
structure Selected (key : α → Number) (fromTop : Bool) (left : Nat) (items selected : List α) :
    Prop where
  /-- An item is what it was, or it counted and is discarded. -/
  forall₂ : List.Forall₂ (fun a b => b = a ∨ valid a = true ∧ b = discard a) items selected
  countP_valid : selected.countP valid = left
  /-- What was taken out stands before what is left. -/
  ahead : ∀ i j (hi : i < items.length) (hj : j < items.length) (hi' : i < selected.length)
    (hj' : j < selected.length), valid items[i] = true → valid selected[i] = false →
      valid selected[j] = true → Ahead fromTop (key items[i], i) (key items[j], j)

theorem length_discardAt (positions : List Nat) (items : List α) :
    (discardAt positions items).length = items.length := by
  rw [discardAt_eq_mapIdx, List.length_mapIdx]

variable [Lawful α]

theorem valid_discard (a : α) : valid (discard a) = false := by
  rw [valid, Lawful.outcome_discard]

/-- What is discarded does not count, and all else counts if it did. -/
theorem valid_getElem_discardAt {positions : List Nat} {items : List α} {i : Nat}
    (hi : i < (discardAt positions items).length) (hi' : i < items.length) :
    valid (discardAt positions items)[i] = (valid items[i] && decide (i ∉ positions)) := by
  simp only [discardAt_eq_mapIdx, List.getElem_mapIdx]
  split
  next h => simp [h, valid_discard]
  next h => simp [h]

variable (key : α → Number) (descending : Bool) (items : List α) (k : Nat)

/-- **What still counts is the rest of the ranking**, if a front part of it is
discarded. -/
theorem mem_ranking_discardAt {i : Nat} :
    i ∈ ranking key descending (discardAt ((ranking key descending items).take k) items) ↔
      i ∈ (ranking key descending items).drop k := by
  have hdisjoint := List.disjoint_take_drop (nodup_ranking key descending items) (Nat.le_refl k)
  have hmem : i ∈ ranking key descending items ↔
      i ∈ (ranking key descending items).take k ∨ i ∈ (ranking key descending items).drop k := by
    rw [← List.mem_append, List.take_append_drop]
  rw [mem_ranking] at hmem ⊢
  constructor
  · rintro ⟨hi, hvalid⟩
    rw [length_discardAt] at hi
    rw [valid_getElem_discardAt _ hi, Bool.and_eq_true_iff, decide_eq_true_iff] at hvalid
    exact (hmem.1 ⟨hi, hvalid.1⟩).resolve_left hvalid.2
  · intro hdrop
    obtain ⟨hi, hvalid⟩ := hmem.2 (.inr hdrop)
    have hi' : i < (discardAt ((ranking key descending items).take k) items).length := by
      rwa [length_discardAt]
    refine ⟨hi', ?_⟩
    rw [valid_getElem_discardAt _ hi, Bool.and_eq_true_iff, decide_eq_true_iff]
    exact ⟨hvalid, fun htake => hdisjoint htake hdrop⟩

/-- Taking out the first ones leaves the others. -/
theorem countP_valid_discardAt :
    (discardAt ((ranking key descending items).take k) items).countP valid =
      items.countP valid - k := by
  have hperm : (ranking key descending
      (discardAt ((ranking key descending items).take k) items)).Perm
        ((ranking key descending items).drop k) :=
    (List.perm_ext_iff_of_nodup (nodup_ranking ..)
      ((List.drop_sublist k _).nodup (nodup_ranking ..))).2
        fun _ => mem_ranking_discardAt key descending items k
  rw [← length_ranking key descending, hperm.length_eq, List.length_drop, length_ranking]

/-- What is taken out of the ranking is what a selection leaves out. -/
theorem selected_discardAt :
    Selected key descending (items.countP valid - k) items
      (discardAt ((ranking key descending items).take k) items) where
  forall₂ := by
    rw [discardAt_eq_mapIdx]
    refine List.forall₂_iff_get.2 ⟨by simp, fun i hi _ => ?_⟩
    simp only [List.get_eq_getElem, List.getElem_mapIdx]
    split
    next h =>
      obtain ⟨_, hvalid⟩ := (mem_ranking key descending items).1 (List.mem_of_mem_take h)
      exact .inr ⟨hvalid, rfl⟩
    next => exact .inl rfl
  countP_valid := countP_valid_discardAt key descending items k
  ahead i j hi hj hi' hj' hvalid htaken hleft := by
    have htake : i ∈ (ranking key descending items).take k := by
      rw [valid_getElem_discardAt _ hi, hvalid] at htaken
      simpa using htaken
    have hdrop : j ∈ (ranking key descending items).drop k :=
      (mem_ranking_discardAt key descending items k).1
        ((mem_ranking key descending _).2 ⟨hj', hleft⟩)
    exact (pairwise_ranking key descending items).rel_of_mem_take_of_mem_drop htake hdrop hi hj

/-- **A selection cuts the ranking** where its count says. -/
theorem selected_selectItems (action : Selection) (extreme : Option Extreme) (count : Number) :
    Selected key (action.fromTop extreme)
      (action.leaves (items.countP valid) (count.toCount items.length)) items
      (selectItems key action extreme count items) := by
  have h := selected_discardAt key (action.fromTop extreme) items
    (action.discards (items.countP valid) (count.toCount items.length))
  have hleaves (v c : Nat) : v - action.discards v c = action.leaves v c := by
    cases action <;> simp only [Selection.leaves, Selection.discards] <;> omega
  rw [hleaves] at h
  rwa [selectItems, length_ranking]

end Counted

/-- Keeping the lowest and dropping the highest take out from the top. -/
theorem Selection.fromTop_eq (action : Selection) (extreme : Option Extreme) :
    action.fromTop extreme =
      decide (action = .keep ∧ extreme = some .low ∨ action = .drop ∧ extreme = some .high) := by
  cases action <;> simp [fromTop]

/-- **Who is kept and who is dropped.** Of dice, by whatever is looked up of them,
and of the members of groups, a selection leaves as many as its count says. Each
one that it takes out is ranked before each one that it leaves: from the lowest up,
unless low ones are kept or high ones dropped, and equal ones by their positions.
Nothing else of an item changes, but that a die that is taken out is flagged. -/
theorem selectItems_exact (action : Selection) (extreme : Option Extreme) (count : Number) :
    let descending : Bool :=
      decide (action = .keep ∧ extreme = some .low ∨ action = .drop ∧ extreme = some .high)
    (∀ (key : RolledDie → Number) (rolls : List RolledDie),
      ∃ c, count.AsksFor rolls.length c ∧
        Selected key descending (action.leaves (rolls.countP valid) c) rolls
          (selectItems key action extreme count rolls) ∧
        List.Forall₂ (fun d d' => d' = { d with
            outcome := { d.outcome with valid := valid d' }
            dropped := d.dropped || (valid d && !valid d') })
          rolls (selectItems key action extreme count rolls)) ∧
    ∀ (key : Result → Number) (members : List Result),
      ∃ c, count.AsksFor members.length c ∧
        Selected key descending (action.leaves (members.countP valid) c) members
          (selectItems key action extreme count members) ∧
        List.Forall₂ (fun r r' => r' = r.setOutcome { r.outcome with valid := valid r' })
          members (selectItems key action extreme count members) := by
  intro descending
  refine ⟨fun key rolls => ?_, fun key members => ?_⟩
  · have h := selected_selectItems key rolls action extreme count
    rw [action.fromTop_eq] at h
    refine ⟨_, count.asksFor_toCount _, h, h.forall₂.imp fun d d' hd => ?_⟩
    rcases hd with rfl | ⟨hvalid, rfl⟩
    · simp [valid, Counted.outcome]
    · simp [valid, Counted.outcome, Counted.discard] at hvalid ⊢
      simp [hvalid]
  · have h := selected_selectItems key members action extreme count
    rw [action.fromTop_eq] at h
    refine ⟨_, count.asksFor_toCount _, h, h.forall₂.imp fun r r' hr => ?_⟩
    rcases hr with rfl | ⟨-, rfl⟩
    · obtain ⟨outcome, shape⟩ := r'
      rfl
    · rw [valid_discard, Result.counted_discard]

end DiceNotation
