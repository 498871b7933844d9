import DiceNotation.Proofs.Notation.Parts
import DiceNotation.Proofs.Roll.Places
import DiceNotation.Proofs.Roll.Running
import DiceNotation.Roll.Evaluate
import Mathlib.Logic.Relation

/-!
# What modifiers do to items

The modifiers of a group take items out of the sum, count conditions on those
that are left, and set to zero what met none (`Counted.Step`). They add nothing
and remove nothing: after all of them, each item comes from the one that stood
in its place (`changed_settle_foldlM`).
-/

namespace DiceNotation

section Forall₂

variable {α β : Type}

/-- Relations along two lists compose along a third one. -/
theorem forall₂_comp {γ : Type} {R : α → β → Prop} {S : β → γ → Prop} {T : α → γ → Prop}
    (hT : ∀ a b c, R a b → S b c → T a c) {l : List α} {m : List β} {k : List γ}
    (h : List.Forall₂ R l m) (h' : List.Forall₂ S m k) : List.Forall₂ T l k := by
  induction h generalizing k with
  | nil =>
    cases h'
    exact .nil
  | cons hab _ ih =>
    obtain ⟨c, k, hbc, hk, rfl⟩ := List.forall₂_cons_left_iff.1 h'
    exact .cons (hT _ _ _ hab hbc) (ih hk)

theorem forall₂_trans {R : α → α → Prop} (hR : ∀ a b c, R a b → R b c → R a c) {l m k : List α}
    (h : List.Forall₂ R l m) (h' : List.Forall₂ R m k) : List.Forall₂ R l k :=
  forall₂_comp hR h h'

/-- What holds of each item and its replacement holds along the lists. -/
theorem forall₂_mapIdx {R : α → β → Prop} {f : Nat → α → β} (h : ∀ i a, R a (f i a))
    (l : List α) : List.Forall₂ R l (l.mapIdx f) :=
  List.forall₂_iff_get.2 ⟨by simp, fun i _ _ => by simpa using h i _⟩

theorem forall₂_mapIdx_right {R : α → β → Prop} {f : Nat → β → β} {l : List α}
    {m : List β} (hR : ∀ i a b, R a b → R a (f i b)) (h : List.Forall₂ R l m) :
    List.Forall₂ R l (m.mapIdx f) := by
  induction h generalizing f with
  | nil => exact .nil
  | cons h _ ih =>
    rw [List.mapIdx_cons]
    exact .cons (hR 0 _ _ h) (ih fun i => hR (i + 1))

theorem forall₂_of_mapIdx_left {R : α → β → Prop} {f : Nat → α → α} {l : List α} {m : List β}
    (hR : ∀ i a b, R (f i a) b → R a b) (h : List.Forall₂ R (l.mapIdx f) m) :
    List.Forall₂ R l m := by
  induction l generalizing f m with
  | nil => exact h
  | cons a l ih =>
    rw [List.mapIdx_cons] at h
    obtain ⟨b, bs, hab, hrest, rfl⟩ := List.forall₂_cons_left_iff.1 h
    exact .cons (hR 0 a b hab) (ih (fun i => hR (i + 1)) hrest)

/-- Each item on the right has one on the left. -/
theorem exists_of_forall₂_of_mem {R : α → β → Prop} {l : List α} {m : List β}
    (h : List.Forall₂ R l m) {b : β} (hb : b ∈ m) : ∃ a ∈ l, R a b := by
  induction h with
  | nil => cases hb
  | cons hab _ ih =>
    rcases List.mem_cons.1 hb with rfl | hb
    · exact ⟨_, List.mem_cons_self, hab⟩
    · obtain ⟨a, ha, hab⟩ := ih hb
      exact ⟨a, List.mem_cons_of_mem _ ha, hab⟩

theorem getElem_of_forall₂ {R : α → β → Prop} {l : List α} {m : List β}
    (h : List.Forall₂ R l m) {i : Nat} (hi : i < m.length) :
    ∃ hi' : i < l.length, R l[i] m[i] :=
  ⟨h.length_eq ▸ hi, (List.forall₂_iff_get.1 h).2 i (h.length_eq ▸ hi) hi⟩

/-- What each pair has in common the lists have. -/
theorem map_eq_of_forall₂ {γ : Type} {f : α → γ} {l m : List α}
    (h : List.Forall₂ (fun a b => f b = f a) l m) : m.map f = l.map f := by
  induction h with
  | nil => rfl
  | cons hab _ ih => rw [List.map_cons, List.map_cons, hab, ih]

end Forall₂

namespace Counted

variable {α : Type} [Counted α]

/-- Setting the outcome of an item sets it, and discarding the item takes it out
of the sum and leaves the rest of its outcome. -/
class Lawful (α : Type) [Counted α] : Prop where
  outcome_setOutcome (o : Outcome) (a : α) : outcome (setOutcome o a) = o
  outcome_discard (a : α) : outcome (discard a) = { outcome a with valid := false }

instance : Lawful RolledDie where
  outcome_setOutcome _ _ := rfl
  outcome_discard _ := rfl

instance : Lawful Result where
  outcome_setOutcome := Result.outcome_setOutcome
  outcome_discard r := Result.outcome_setOutcome _ r

attribute [simp] Lawful.outcome_setOutcome Lawful.outcome_discard

theorem forall₂_numbered {R : α → α → Prop} (h : ∀ i a, R a (setOrder i a)) (items : List α) :
    List.Forall₂ R items (numbered items) :=
  forall₂_mapIdx h items

/-- Numbering changes nothing but orders. -/
theorem map_numbered {f : α → α} (h : ∀ order a, f (setOrder order a) = setOrder order (f a))
    (items : List α) : (numbered items).map f = numbered (items.map f) :=
  List.ext_getElem (by simp [numbered]) (by simp [numbered, h])

theorem sumTotals_map {f : α → α} (h : ∀ a, total (f a) = total a) (items : List α) :
    sumTotals (items.map f) = sumTotals items := by
  rw [sumTotals, List.map_map]
  exact congrArg Number.sum (List.map_congr_left fun a _ => h a)

/-- One thing that the modifiers of a group do to an item. -/
inductive Step : α → α → Prop
  | discard (a : α) : Step a (discard a)
  | countOne {a : α} (delta : Int64) : valid a → Step a (countOne delta a)
  | zero {a : α} : success a = false →
    Step a (setOutcome { outcome a with value := .zero, success := true } a)

/-- All that the modifiers of a group do to an item. -/
abbrev Changed : α → α → Prop := Relation.ReflTransGen Step

/-- A selection changes items in what it may change only. -/
theorem changed_selectItems (key : α → Number) (action : Selection) (extreme : Option Extreme)
    (count : Number) (items : List α) :
    List.Forall₂ Changed items (selectItems key action extreme count items) := by
  rw [selectItems, discardAt_eq_mapIdx]
  refine forall₂_mapIdx (fun i a => ?_) items
  split
  · exact .single (.discard a)
  · exact .refl

/-- So does a conversion. -/
theorem changed_convert (key : α → Number) (condition : Condition Number) (delta : Int64)
    (items : List α) : List.Forall₂ Changed items (convert key condition delta items) := by
  rw [convert, List.forall₂_map_right_iff]
  refine List.forall₂_same.2 fun a _ => ?_
  split
  next h => exact .single (.countOne delta (Bool.and_eq_true_iff.1 h).1)
  next => exact .refl

theorem changed_zeroUnconverted (items : List α) :
    List.Forall₂ Changed items (zeroUnconverted items) := by
  rw [zeroUnconverted, List.forall₂_map_right_iff]
  refine List.forall₂_same.2 fun a _ => ?_
  split
  next => exact .refl
  next h => exact .single (.zero (by simpa using h))

theorem changed_settle {ε : Type} (mods : List (Modifier ε)) (items : List α) :
    List.Forall₂ Changed items (settle mods items) := by
  rw [settle]
  split
  · exact changed_zeroUnconverted items
  · exact List.forall₂_same.2 fun _ _ => .refl

@[simp] theorem settle_map_modifiers {ε φ : Type} (g : ε → φ)
    (mods : List (Modifier ε)) (items : List α) :
    settle (mods.map (Modifier.map g)) items = settle mods items := by
  have htarget : Modifier.isTarget ∘ Modifier.map g = Modifier.isTarget :=
    funext (Modifier.isTarget_map g)
  rw [settle, settle, List.any_map, htarget]

variable {σ : Setting} {n d : Nat} {items items' : List α}

/-- Modifiers change items in what they may change only. -/
theorem changed_applyToItems {m : Modifier (Rolling Result)}
    (h : (m.applyToItems items).answer σ n = (.ok items', d)) :
    List.Forall₂ Changed items items' := by
  match m with
  | .select action extreme count =>
    obtain ⟨r, e, -, h⟩ := Rolling.answer_bind_eq_ok.1 h
    cases h
    exact changed_selectItems ..
  | .test .success condition | .test .failure condition =>
    obtain ⟨c, e, -, h⟩ := Rolling.answer_bind_eq_ok.1 h
    cases h
    exact changed_convert ..
  | .test .crit _ | .test .critfail _ | .again .. | .unsupported => cases h

/-- **The modifiers of a group** change every item where it stands. -/
theorem changed_settle_foldlM {mods : List (Modifier (Rolling Result))}
    (h : (mods.foldlM Modifier.applyToItems items).answer σ n = (.ok items', d)) :
    List.Forall₂ Changed items (settle mods items') := by
  refine forall₂_trans (fun _ _ _ => .trans) ?_ (changed_settle mods items')
  refine Rolling.invariant_of_answer_foldlM (I := fun _ items' => List.Forall₂ Changed items items')
    (fun m _ b n b' d hb hm => ?_) (List.forall₂_same.2 fun _ _ => .refl) h
  exact forall₂_trans (fun _ _ _ => .trans) hb (changed_applyToItems hm)

/-- What no step changes is the same in the end. -/
theorem Changed.apply_eq {β : Type} {f : α → β} (hstep : ∀ {a b : α}, Step a b → f b = f a)
    {a b : α} (h : Changed a b) : f b = f a := by
  induction h with
  | refl => rfl
  | tail _ h ih => exact (hstep h).trans ih

/-- An item stays where it is shown. -/
theorem Step.order_eq [Lawful α] {a b : α} (h : Step a b) :
    (outcome b).order = (outcome a).order := by
  cases h with
  | discard | zero => simp
  | countOne =>
    rw [DiceNotation.countOne]
    split <;> simp [setValue]

/-- Changed items keep their order. -/
theorem Changed.order_eq [Lawful α] {a b : α} (h : Changed a b) :
    (outcome b).order = (outcome a).order :=
  h.apply_eq Step.order_eq

/-- The parts of a member stay what they are. -/
theorem Step.shape_eq {r s : Result} (h : Step r s) : s.shape = r.shape := by
  cases h with
  | discard | zero => exact Result.shape_setOutcome ..
  | countOne =>
    rw [DiceNotation.countOne]
    split <;> exact Result.shape_setOutcome ..

/-- Changed results keep their shape. -/
theorem Changed.shape_eq {r s : Result} (h : Changed r s) : s.shape = r.shape :=
  h.apply_eq Step.shape_eq

end Counted

end DiceNotation
