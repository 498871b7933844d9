import DiceNotation.Proofs.Roll.Ranking

/-!
# The algebra of keep and drop

A selection takes a front part out of the ranking, and what still counts afterwards
is ranked as the rest of that part was (`ranking_takeOut`): whoever is gone changes
nothing between those who are left, equal ones included. So taking some out and then
some more is taking them out at once (`takeOut_takeOut`), and the laws of keep and
drop (`SelectionLaws`) are sums of how many are taken out.
-/

namespace DiceNotation

open Counted

/-- The other end of the ranking. -/
def Extreme.opposite : Extreme → Extreme
  | .high => .low
  | .low => .high

/-- Nothing stands before what stands before it. -/
theorem Ahead.asymm {descending : Bool} {p q : Number × Nat} (h : Ahead descending p q) :
    ¬Ahead descending q p := by
  simp only [Ahead, Number.totalCompare, Double.totalCompare, Int.compare_eq_eq] at h ⊢
  cases descending <;> simp [Int.compare_eq_lt] at h ⊢ <;> omega

/-- What is discarded in two rounds, nothing twice, is discarded at once. -/
theorem discardAt_discardAt {α : Type} [Counted α] {first second : List Nat}
    (h : first.Disjoint second) (items : List α) :
    discardAt second (discardAt first items) = discardAt (first ++ second) items := by
  simp only [discardAt_eq_mapIdx]
  refine List.ext_getElem (by simp) fun i _ _ => ?_
  simp only [List.getElem_mapIdx, List.mem_append]
  by_cases hfirst : i ∈ first
  · have hsecond : i ∉ second := fun hsecond => h hfirst hsecond
    simp [hfirst, hsecond]
  · simp [hfirst]

section Laws

variable {α : Type} [Counted α] (key : α → Number)

/-! ## Taking out -/

/-- The items without the first `k` of the ranking. -/
def takeOut (descending : Bool) (k : Nat) (items : List α) : List α :=
  discardAt ((ranking key descending items).take k) items

/-- Keeps or drops so many items, or all of them if there are no more. -/
def selectExactly (action : Selection) (extreme : Option Extreme) (c : Nat) (items : List α) :
    List α :=
  takeOut key (action.fromTop extreme) (action.discards (items.countP valid) c) items

/-- The number that a selection asks for is cut off at the number of items. -/
theorem selectItems_eq_selectExactly (action : Selection) (extreme : Option Extreme)
    (count : Number) (items : List α) :
    selectItems key action extreme count items =
      selectExactly key action extreme (count.toCount items.length) items := by
  rw [selectItems, length_ranking]
  rfl

variable (descending : Bool) (items : List α)

/-- A count beyond all items is one of all items. -/
theorem selectExactly_min_length (action : Selection) (extreme : Option Extreme) (c : Nat) :
    selectExactly key action extreme (min c items.length) items =
      selectExactly key action extreme c items := by
  have hle : items.countP valid ≤ items.length := List.countP_le_length
  cases action with
  | keep =>
    have hsame : items.countP valid - min c items.length = items.countP valid - c := by omega
    simp only [selectExactly, Selection.discards, hsame]
  | drop =>
    refine congrArg (discardAt · items) (List.take_eq_take_iff.2 ?_)
    simp only [length_ranking, Selection.discards]
    omega

/-- Nobody is in the front part of the ranking and behind it. -/
theorem disjoint_ranking (k : Nat) :
    ((ranking key descending items).take k).Disjoint ((ranking key descending items).drop k) :=
  List.disjoint_take_drop (nodup_ranking key descending items) (Nat.le_refl k)

variable [Lawful α]

/-- What still counts is the item that it was. -/
theorem getElem_takeOut_of_mem {k i : Nat} (hi : i < (takeOut key descending k items).length)
    (h : i ∈ ranking key descending (takeOut key descending k items)) :
    ∃ hi' : i < items.length, (takeOut key descending k items)[i] = items[i] := by
  have hdrop := (mem_ranking_discardAt key descending items k).1 h
  have htake : i ∉ (ranking key descending items).take k :=
    fun htake => disjoint_ranking key descending items k htake hdrop
  obtain ⟨hi', -⟩ := (mem_ranking key descending items).1 (List.mem_of_mem_drop hdrop)
  refine ⟨hi', ?_⟩
  simp [takeOut, discardAt_eq_mapIdx, htake]

/-- **What still counts keeps its ranking**: a front part was taken out, and the rest
is there in its order. -/
theorem ranking_takeOut (k : Nat) :
    ranking key descending (takeOut key descending k items) =
      (ranking key descending items).drop k := by
  have hperm : (ranking key descending (takeOut key descending k items)).Perm
      ((ranking key descending items).drop k) :=
    (List.perm_ext_iff_of_nodup (nodup_ranking ..)
      ((List.drop_sublist k _).nodup (nodup_ranking ..))).2
        fun _ => mem_ranking_discardAt key descending items k
  -- both lists are in order, and the order leaves no choice
  refine hperm.eq_of_pairwise (fun i j hi hj hij hji => ?_)
    ((pairwise_ranking ..).imp_of_mem fun {i j} hi hj h hi' hj' => ?_)
    ((pairwise_ranking key descending items).sublist (List.drop_sublist k _))
  · obtain ⟨hi', -⟩ := (mem_ranking ..).1 (List.mem_of_mem_drop (hperm.subset hi))
    obtain ⟨hj', -⟩ := (mem_ranking ..).1 (List.mem_of_mem_drop hj)
    exact absurd (hji hj' hi') (hij hi' hj').asymm
  · have hlength : (takeOut key descending k items).length = items.length := length_discardAt ..
    obtain ⟨_, hsame⟩ := getElem_takeOut_of_mem key descending items (hlength ▸ hi') hi
    obtain ⟨_, hsame'⟩ := getElem_takeOut_of_mem key descending items (hlength ▸ hj') hj
    have hahead := h (hlength ▸ hi') (hlength ▸ hj')
    rwa [hsame, hsame'] at hahead

/-- **Taking out some and then some more** is taking out all of them at once. -/
theorem takeOut_takeOut (k m : Nat) :
    takeOut key descending m (takeOut key descending k items) =
      takeOut key descending (k + m) items := by
  have hdisjoint : ((ranking key descending items).take k).Disjoint
      (((ranking key descending items).drop k).take m) :=
    List.disjoint_of_subset_right (List.take_subset m _) (disjoint_ranking ..)
  rw [takeOut, ranking_takeOut, takeOut, discardAt_discardAt hdisjoint, ← List.take_add]
  rfl

/-- So many are taken out, if there are as many. -/
theorem countP_valid_takeOut (k : Nat) :
    (takeOut key descending k items).countP valid = items.countP valid - k :=
  countP_valid_discardAt key descending items k

end Laws

/-! ## Keep and drop -/

/-- The laws of keep and drop, for items ranked by what is looked up of them: in one
direction, dropping adds up and keeping goes down to the lesser count, and to keep at
one end is to drop what is too many at the other. -/
structure SelectionLaws {α : Type} [Counted α] (key : α → Number) : Prop where
  /-- A selection is for a count, to which what it asks for is brought. -/
  exactly : ∀ action extreme (count : Number) (items : List α), ∃ c,
    count.AsksFor items.length c ∧
      selectItems key action extreme count items = selectExactly key action extreme c items
  /-- Beyond the number of items all counts are one. -/
  min_length : ∀ action extreme c (items : List α),
    selectExactly key action extreme (min c items.length) items =
      selectExactly key action extreme c items
  drop_drop : ∀ extreme a b (items : List α),
    selectExactly key .drop extreme b (selectExactly key .drop extreme a items) =
      selectExactly key .drop extreme (a + b) items
  keep_keep : ∀ extreme a b (items : List α),
    selectExactly key .keep extreme b (selectExactly key .keep extreme a items) =
      selectExactly key .keep extreme (min a b) items
  keep_eq_drop : ∀ (extreme : Extreme) a (items : List α),
    selectExactly key .keep (some extreme) a items =
      selectExactly key .drop (some extreme.opposite) (items.countP valid - a) items
  /-- Where no end is given, high ones are kept and low ones are dropped. -/
  keep_none : ∀ c (items : List α),
    selectExactly key .keep none c items = selectExactly key .keep (some .high) c items
  drop_none : ∀ c (items : List α),
    selectExactly key .drop none c items = selectExactly key .drop (some .low) c items

theorem selectionLaws {α : Type} [Counted α] [Lawful α] (key : α → Number) :
    SelectionLaws key where
  exactly action extreme count items :=
    ⟨_, count.asksFor_toCount items.length, selectItems_eq_selectExactly ..⟩
  min_length action extreme c items := selectExactly_min_length ..
  drop_drop extreme a b items := takeOut_takeOut ..
  keep_keep extreme a b items := by
    have hsum (v : Nat) : v - a + (v - (v - a) - b) = v - min a b := by omega
    simp only [selectExactly, Selection.discards, countP_valid_takeOut, takeOut_takeOut, hsum]
  keep_eq_drop extreme a items := by
    cases extreme <;> rfl
  keep_none c items := rfl
  drop_none c items := rfl

/-- **Keep and drop add up**, for dice and for the members of groups, whatever they
are ranked by and whoever of them counts no more. -/
theorem selectItems_laws :
    (∀ key : RolledDie → Number, SelectionLaws key) ∧ ∀ key : Result → Number, SelectionLaws key :=
  ⟨selectionLaws, selectionLaws⟩

end DiceNotation
