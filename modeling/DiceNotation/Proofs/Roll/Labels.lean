import DiceNotation.Proofs.Notation.Bare
import DiceNotation.Proofs.Roll.Items
import DiceNotation.Proofs.Roll.Layers
import DiceNotation.Proofs.Roll.Pool

/-!
# Labels and double brackets

What is made of results looks at their values, at what counts and what is a
count of successes, and at their pools, and none of these has to do with labels
(`Counted.Blind`). So each step of a roll whose parts have lost their labels is
the step of the roll itself, with the labels of its result removed; that is the
`_map` lemma of the step. Double brackets stand for what is in them already when
one layer is rolled.

From that, an expression and its bare expression are rolled alike
(`Node.roll_bare`): the same draws, and results that differ in labels only.
-/

namespace DiceNotation

open Counted

/-! ## Results without labels -/

section Map

variable {ε φ χ : Type}

/-- A shape with its parts replaced. -/
def Shape.map (f : ε → φ) : Shape ε → Shape φ
  | .number => .number
  | .dice count sides rolls matched => .dice (f count) (sides.map f) rolls matched
  | .sum terms ops => .sum (terms.map f) ops
  | .chain terms ops => .chain (terms.map f) ops
  | .group members => .group (members.map f)
  | .function fn arg => .function fn (f arg)

theorem Shape.map_map (f : ε → φ) (g : φ → χ) (shape : Shape ε) :
    (shape.map f).map g = shape.map (g ∘ f) := by
  cases shape <;> simp [Shape.map]

theorem Shape.map_congr {f g : ε → φ} {shape : Shape ε} (h : ∀ x ∈ shape.parts, f x = g x) :
    shape.map f = shape.map g := by
  cases shape with
  | number => rfl
  | dice count sides rolls matched =>
    have hsides : sides.map f = sides.map g :=
      Sides.map_congr fun x hx => h x (List.mem_cons_of_mem _ hx)
    rw [Shape.map, Shape.map, h count List.mem_cons_self, hsides]
  | sum terms ops | chain terms ops | group terms =>
    have hterms : terms.map f = terms.map g := List.map_congr_left h
    rw [Shape.map, Shape.map, hterms]
  | function fn arg => rw [Shape.map, Shape.map, h arg List.mem_cons_self]

end Map

def Outcome.unlabel (o : Outcome) : Outcome := { o with label := none }

namespace Result

mutual

/-- The result with its labels removed, in all of its parts. -/
def unlabel : Result → Result
  | mk outcome shape => mk outcome.unlabel (unlabelShape shape)

def unlabelShape : Shape Result → Shape Result
  | .number => .number
  | .dice count sides rolls matched =>
    .dice (unlabel count) (unlabelSides sides) rolls matched
  | .sum terms ops => .sum (unlabelAll terms) ops
  | .chain terms ops => .chain (unlabelAll terms) ops
  | .group members => .group (unlabelAll members)
  | .function fn arg => .function fn (unlabel arg)

def unlabelSides : Sides Result → Sides Result
  | .fate => .fate
  | .numeric faces => .numeric (unlabel faces)

def unlabelAll : List Result → List Result
  | [] => []
  | r :: rest => unlabel r :: unlabelAll rest

end

/-- All results lose their labels one by one. -/
theorem unlabelAll_eq (results : List Result) : unlabelAll results = results.map unlabel := by
  induction results with
  | nil => simp [unlabelAll]
  | cons r rest ih => simp [unlabelAll, ih]

theorem unlabelShape_eq (shape : Shape Result) : unlabelShape shape = shape.map unlabel := by
  cases shape with
  | dice count sides rolls matched =>
    cases sides <;> simp [unlabelShape, Shape.map, unlabelSides, Sides.map]
  | number | sum | chain | group | function => simp [unlabelShape, Shape.map, unlabelAll_eq]

/-- **One layer** without labels. -/
theorem unlabel_mk (outcome : Outcome) (shape : Shape Result) :
    (mk outcome shape).unlabel = mk outcome.unlabel (shape.map unlabel) := by
  rw [unlabel, unlabelShape_eq]

/-- Without labels the outcome has none. -/
@[simp] theorem outcome_unlabel (r : Result) : r.unlabel.outcome = r.outcome.unlabel := by
  cases r
  rw [unlabel_mk]
  rfl

@[simp] theorem value_unlabel (r : Result) : r.unlabel.value = r.value := by
  rw [value, outcome_unlabel]
  rfl

theorem unlabel_setOutcome (outcome : Outcome) (r : Result) :
    (r.setOutcome outcome).unlabel = r.unlabel.setOutcome outcome.unlabel := by
  cases r
  rw [setOutcome, unlabel_mk, unlabel_mk]
  rfl

/-- What has lost its labels has no more to lose. -/
@[simp] theorem unlabel_unlabel (r : Result) : r.unlabel.unlabel = r.unlabel := by
  induction r using Result.induction with
  | h r ih =>
    obtain ⟨outcome, shape⟩ := r
    have hshape : shape.map (unlabel ∘ unlabel) = shape.map unlabel := Shape.map_congr ih
    rw [unlabel_mk, unlabel_mk, Shape.map_map, hshape]
    rfl

/-- A label that is put on is one that is removed again. -/
@[simp] theorem unlabel_relabel (label : Option String) (r : Result) :
    (r.relabel label).unlabel = r.unlabel := by
  cases label with
  | none => rfl
  | some label =>
    cases r
    rw [relabel, setLabel, counted_setOutcome, setOutcome, unlabel_mk, unlabel_mk]
    rfl

/-! ### What results are made of -/

theorem unlabel_setOrder (order : Nat) (r : Result) :
    (setOrder order r).unlabel = setOrder order r.unlabel := by
  rw [setOrder, setOrder, counted_setOutcome, unlabel_setOutcome]
  simp [Outcome.unlabel]

theorem unlabel_setValue (v : Number) (r : Result) :
    (setValue v r).unlabel = setValue v r.unlabel := by
  rw [setValue, setValue, counted_setOutcome, unlabel_setOutcome]
  simp [Outcome.unlabel]

theorem map_unlabel_numbered (results : List Result) :
    (numbered results).map unlabel = numbered (results.map unlabel) :=
  map_numbered unlabel_setOrder results

/-- Labels do not count. -/
theorem sumTotals_map_unlabel (results : List Result) :
    sumTotals (results.map unlabel) = sumTotals results :=
  sumTotals_map (fun r => by simp [total, Outcome.total, Outcome.unlabel]) results

@[simp] theorem unlabel_number (v : Number) : (number v).unlabel = number v := unlabel_mk ..

@[simp] theorem unlabel_dice (count : Result) (sides : Sides Result) (rolls : List RolledDie) :
    (dice count sides rolls).unlabel = dice count.unlabel (sides.map unlabel) rolls :=
  unlabel_mk ..

@[simp] theorem unlabel_matchedDice (count : Result) (sides : Sides Result)
    (rolls : List RolledDie) (faces : Nat) :
    (matchedDice count sides rolls faces).unlabel =
      matchedDice count.unlabel (sides.map unlabel) rolls faces :=
  unlabel_mk ..

@[simp] theorem unlabel_sum (v : Number) (terms : List Result) (ops : List SumOp) :
    (sum v terms ops).unlabel = sum v (terms.map unlabel) ops :=
  unlabel_mk ..

@[simp] theorem unlabel_chain (v : Number) (terms : List Result) (ops : List ArithOp) :
    (chain v terms ops).unlabel = chain v (terms.map unlabel) ops :=
  unlabel_mk ..

@[simp] theorem unlabel_group (members : List Result) :
    (group members).unlabel = group (members.map unlabel) := by
  rw [group, group, sumTotals_map_unlabel, unlabel_mk]
  rfl

@[simp] theorem unlabel_function (fn : NumFn) (arg : Result) :
    (function fn arg).unlabel = function fn arg.unlabel := by
  rw [function, function, value_unlabel, unlabel_mk]
  rfl

/-! ### Pools -/

/-- Pools are pools without labels too. -/
@[simp] theorem isPooled_unlabel (r : Result) : r.unlabel.isPooled = r.isPooled := by
  cases r with
  | mk outcome shape =>
    rw [unlabel_mk]
    cases shape <;> rfl

@[simp] theorem pool_unlabel (r : Result) : r.unlabel.pool = r.pool := by
  induction r using sum_induction with
  | sum outcome terms ops ih =>
    rw [unlabel_mk, Shape.map, pool, pool, poolAll_eq_flatMap, poolAll_eq_flatMap,
      List.flatMap_map]
    exact List.flatMap_congr ih
  | other outcome shape h =>
    rw [unlabel_mk]
    cases shape with
    | sum terms ops => exact absurd rfl (h terms ops)
    | number | dice | chain | group | function => simp only [Shape.map, pool]

/-- Dice are put back into a pool whatever its label is. -/
theorem refill_unlabel (r : Result) (supply : List RolledDie) :
    r.unlabel.refill supply = ((r.refill supply).1.unlabel, (r.refill supply).2) := by
  induction r using sum_induction generalizing supply with
  | sum outcome terms ops ih =>
    have hterms : refillAll (terms.map unlabel) supply =
        ((refillAll terms supply).1.map unlabel, (refillAll terms supply).2) := by
      induction terms generalizing supply with
      | nil => simp [refillAll]
      | cons term rest ih' =>
        rw [List.map_cons, refillAll, refillAll, ih term List.mem_cons_self]
        simp [ih' (fun t ht => ih t (List.mem_cons_of_mem _ ht))]
    rw [unlabel_mk, Shape.map, refill, refill, hterms, unlabel_mk, Shape.map]
  | other outcome shape h =>
    rw [unlabel_mk]
    cases shape with
    | sum terms ops => exact absurd rfl (h terms ops)
    | number | dice | chain | group | function => simp [Shape.map, refill, unlabel_mk]

/-- A sum of results is the same without labels. -/
theorem foldSum_map_unlabel (terms : List Result) (ops : List SumOp) :
    foldSum (terms.map unlabel) ops = foldSum terms ops := by
  cases terms with
  | nil => rfl
  | cons head tail =>
    simp [foldSum, List.zip_map_right, List.foldl_map]

/-- A result is brought up to date alike without labels. -/
theorem refresh_unlabel (r : Result) : r.unlabel.refresh = r.refresh.unlabel := by
  induction r using sum_induction with
  | sum outcome terms ops ih =>
    have hterms : (terms.map unlabel).map refresh = (terms.map refresh).map unlabel := by
      rw [List.map_map, List.map_map]
      exact List.map_congr_left ih
    rw [unlabel_mk, Shape.map, refresh, refresh, unlabel_mk, Shape.map, refreshAll_eq_map,
      refreshAll_eq_map, hterms, foldSum_map_unlabel]
    rfl
  | other outcome shape h =>
    rw [unlabel_mk]
    cases shape with
    | sum terms ops => exact absurd rfl (h terms ops)
    | dice count sides rolls matched =>
      cases matched <;> simp [Shape.map, refresh, unlabel_mk, Outcome.unlabel]
    | number | chain | group | function => simp [Shape.map, refresh, unlabel_mk]

end Result

/-! ## Items -/

namespace Counted

variable {α : Type} [Counted α] {f : α → α}

/-- A replacement of items that is blind to what modifiers look at, and that may
be made before they change an item as well as after. -/
structure Blind (f : α → α) : Prop where
  valid_eq : ∀ a, valid (f a) = valid a
  value_eq : ∀ a, value (f a) = value a
  success_eq : ∀ a, success (f a) = success a
  discard : ∀ a, f (discard a) = discard (f a)
  update : ∀ (v : Number) (s : Bool) (a : α),
    f (setOutcome { outcome a with value := v, success := s } a) =
      setOutcome { outcome (f a) with value := v, success := s } (f a)

theorem blind_id : Blind (id : α → α) :=
  ⟨fun _ => rfl, fun _ => rfl, fun _ => rfl, fun _ => rfl, fun _ _ _ => rfl⟩

/-- Without its labels a result counts as before. -/
theorem blind_unlabel : Blind Result.unlabel where
  valid_eq r := by simp [valid, Outcome.unlabel]
  value_eq r := Result.value_unlabel r
  success_eq r := by simp [success, Outcome.unlabel]
  discard r := by
    rw [Result.counted_discard, Result.counted_discard, Result.unlabel_setOutcome]
    simp [Outcome.unlabel]
  update v s r := by
    rw [Result.counted_setOutcome, Result.counted_setOutcome, Result.unlabel_setOutcome]
    simp [Outcome.unlabel]

namespace Blind

variable (hf : Blind f) {key : α → Number} (hkey : ∀ a, key (f a) = key a)

include hf

include hkey in
/-- What counts and with what value decides the ranking. -/
theorem ranking_map (descending : Bool) (items : List α) :
    ranking key descending (items.map f) = ranking key descending items := by
  simp [ranking, List.zipIdx_map, List.filter_map, Function.comp_def, hf.valid_eq, rankOf, hkey]

theorem discardAt_map (positions : List Nat) (items : List α) :
    discardAt positions (items.map f) = (discardAt positions items).map f := by
  rw [discardAt_eq_mapIdx, discardAt_eq_mapIdx]
  refine List.ext_getElem (by simp) fun i _ _ => ?_
  simp only [List.getElem_mapIdx, List.getElem_map]
  split
  · exact (hf.discard _).symm
  · rfl

include hkey in
/-- A selection takes out the items in the same places. -/
theorem selectItems_map (action : Selection) (extreme : Option Extreme) (count : Number)
    (items : List α) :
    selectItems key action extreme count (items.map f) =
      (selectItems key action extreme count items).map f := by
  rw [selectItems, selectItems, hf.ranking_map hkey, hf.discardAt_map, List.length_map]

theorem setValue (v : Number) (a : α) : f (setValue v a) = Counted.setValue v (f a) := by
  calc f (Counted.setValue v a)
      = setOutcome { outcome (f a) with value := v, success := success a } (f a) :=
        hf.update v (success a) a
    _ = Counted.setValue v (f a) := by rw [← hf.success_eq]; rfl

theorem countOne (delta : Int64) (a : α) :
    f (countOne delta a) = DiceNotation.countOne delta (f a) := by
  rw [DiceNotation.countOne, DiceNotation.countOne, hf.success_eq, hf.value_eq]
  split
  · exact hf.setValue _ a
  · exact hf.update _ _ a

include hkey in
/-- A conversion counts alike. -/
theorem convert_map (condition : Condition Number) (delta : Int64) (items : List α) :
    convert key condition delta (items.map f) = (convert key condition delta items).map f := by
  simp only [convert, List.map_map]
  refine List.map_congr_left fun a _ => ?_
  simp only [Function.comp_apply, hf.valid_eq, hkey]
  split
  · exact (hf.countOne delta a).symm
  · rfl

theorem zeroUnconverted_map (items : List α) :
    zeroUnconverted (items.map f) = (zeroUnconverted items).map f := by
  simp only [zeroUnconverted, List.map_map]
  refine List.map_congr_left fun a _ => ?_
  simp only [Function.comp_apply, hf.success_eq]
  split
  · rfl
  · exact (hf.update _ _ a).symm

/-- So does settling. -/
theorem settle_map {ε : Type} (mods : List (Modifier ε)) (items : List α) :
    settle mods (items.map f) = (settle mods items).map f := by
  rw [settle, settle]
  split
  · exact hf.zeroUnconverted_map items
  · rfl

end Blind

end Counted

/-! ## Rolls -/

/-- The roll, with the labels of its result removed. -/
abbrev Rolling.unlabel (m : Rolling Result) : Rolling Result := Result.unlabel <$> m

@[simp] theorem Rolling.map_refuse {α β : Type} (g : α → β) (error : RollError) :
    g <$> (refuse error : Rolling α) = refuse error :=
  rfl

open Rolling (unlabel)

/-! ### Modifiers -/

/-- A target is taken for its value, so its labels do not matter. -/
@[simp] theorem Condition.resolve_map (c : Condition (Rolling Result)) :
    (c.map unlabel).resolve = c.resolve := by
  simp [Condition.resolve, Condition.map]

/-- Modifiers of dice need only the values of their operands. -/
theorem Modifier.applyToDice_map (kind : DieType) (rolls : List RolledDie)
    (m : Modifier (Rolling Result)) :
    (m.map unlabel).applyToDice kind rolls = m.applyToDice kind rolls := by
  match m with
  | .select .. => simp [Modifier.map, applyToDice]
  | .test .success _ | .test .failure _ | .test .crit _ | .test .critfail _ =>
    simp [Modifier.map, applyToDice]
  | .again _ (some _) => simp [Modifier.map, applyToDice]
  | .again _ none | .unsupported => rfl

theorem foldlM_applyToDice_map (kind : DieType) (rolls : List RolledDie)
    (mods : List (Modifier (Rolling Result))) :
    (mods.map (Modifier.map unlabel)).foldlM (Modifier.applyToDice kind) rolls =
      mods.foldlM (Modifier.applyToDice kind) rolls := by
  simp only [List.foldlM_map, Modifier.applyToDice_map]

section Items

variable {α : Type} [Counted α] {f : α → α}

/-- A modifier does to the replaced items what it did to the items. -/
theorem Modifier.applyToItems_map (hf : Blind f) (items : List α)
    (m : Modifier (Rolling Result)) :
    (m.map unlabel).applyToItems (items.map f) = List.map f <$> m.applyToItems items := by
  match m with
  | .select .. => simp [Modifier.map, applyToItems, hf.selectItems_map hf.value_eq]
  | .test .success _ | .test .failure _ =>
    simp [Modifier.map, applyToItems, hf.convert_map hf.value_eq]
  | .test .crit _ | .test .critfail _ | .again .. | .unsupported => rfl

/-- Modifiers of a group do alike with members without labels. -/
theorem foldlM_applyToItems_map (hf : Blind f) (items : List α)
    (mods : List (Modifier (Rolling Result))) :
    (mods.map (Modifier.map unlabel)).foldlM Modifier.applyToItems (items.map f) =
      List.map f <$> mods.foldlM Modifier.applyToItems items := by
  induction mods generalizing items with
  | nil => simp
  | cons m rest ih =>
    rw [List.map_cons, List.foldlM_cons, List.foldlM_cons, Modifier.applyToItems_map hf,
      bind_map_left, map_bind]
    exact bind_congr fun items' => ih items'

end Items

/-! ### Dice -/

/-- The sides are those of the expression without its labels. -/
theorem Sides.resolve_map (sides : Sides (Rolling Result)) :
    (sides.map unlabel).resolve =
      (fun p => (p.1.map Result.unlabel, p.2)) <$> sides.resolve := by
  cases sides with
  | fate => rfl
  | numeric faces =>
    rw [Sides.map, resolve, resolve, bind_map_left, map_bind]
    refine bind_congr fun r => ?_
    rw [Result.value_unlabel]
    split <;> rfl

theorem Matching.faces_map (m : Matching (Rolling Result)) (rolls : List RolledDie) :
    (m.map unlabel).faces rolls = m.faces rolls := by
  obtain ⟨least, counts, compare, target⟩ := m
  have hcondition : (Matching.map unlabel ⟨least, counts, compare, target⟩).condition? =
      Matching.condition? ⟨least, counts, compare, target⟩ := by
    cases compare <;> cases target <;> try rfl
    simp [Matching.condition?, Matching.map, Condition.resolve]
  rw [Matching.faces, Matching.faces, hcondition]
  simp [Matching.map]

namespace DieSpec

theorem rollDice_map (spec : DieSpec (Rolling Result)) (kind : DieType) (n : Nat) :
    (spec.map unlabel).rollDice kind n = spec.rollDice kind n := by
  simp only [rollDice, DieSpec.map, foldlM_applyToDice_map, settle_map_modifiers]

/-- What is concluded has lost its labels if the parts have. -/
theorem conclude_map (spec : DieSpec (Rolling Result)) (count : Result) (sides : Sides Result)
    (rolls : List RolledDie) :
    (spec.map unlabel).conclude count.unlabel (sides.map Result.unlabel) rolls =
      Result.unlabel <$> spec.conclude count sides rolls := by
  have harrange : (spec.map unlabel).arrange rolls = spec.arrange rolls := rfl
  have harrange' (faces : List Int64) : (spec.map unlabel).arrange (markMatched faces rolls) =
      spec.arrange (markMatched faces rolls) := rfl
  cases hmatching : spec.matching with
  | none => simp [conclude, hmatching, DieSpec.map, arrange]
  | some m =>
    simp only [conclude, hmatching, DieSpec.map, Option.map_some, Matching.faces_map, map_bind]
    refine bind_congr fun faces => ?_
    rw [map_pure, apply_ite Result.unlabel, Result.unlabel_matchedDice, Result.unlabel_dice]
    rfl

/-- **Dice**, without the labels of what they are made of. -/
theorem roll_map (spec : DieSpec (Rolling Result)) :
    (spec.map unlabel).roll = Result.unlabel <$> spec.roll := by
  have hcount : (spec.map unlabel).count = unlabel spec.count := rfl
  have hsides : (spec.map unlabel).sides = spec.sides.map unlabel := rfl
  rw [roll, roll, hcount, hsides, bind_map_left, map_bind]
  refine bind_congr fun count => ?_
  rw [Result.value_unlabel, map_bind]
  refine bind_congr fun n => ?_
  rw [Sides.resolve_map, bind_map_left, map_bind]
  refine bind_congr fun p => ?_
  dsimp only
  rw [rollDice_map, map_bind]
  exact bind_congr fun rolls => spec.conclude_map count p.1 rolls

end DieSpec

/-! ### Groups -/

/-- Members without labels are rolled as the members are. -/
theorem mapM_id_map_unlabel (members : List (Rolling Result)) :
    (members.map unlabel).mapM id = List.map Result.unlabel <$> members.mapM id := by
  induction members with
  | nil => simp
  | cons m rest ih => simp [ih]

/-- A pool is modified alike without labels. -/
theorem rollPool_map (member : Result) (mods : List (Modifier (Rolling Result))) :
    rollPool member.unlabel (mods.map (Modifier.map unlabel)) =
      Result.unlabel <$> rollPool member mods := by
  have hdice := foldlM_applyToItems_map blind_id member.pool mods
  rw [List.map_id, List.map_id_fun, id_map] at hdice
  rw [rollPool, rollPool, Result.pool_unlabel, hdice, map_bind]
  refine bind_congr fun dice => ?_
  simp [Result.refill_unlabel, Result.refresh_unlabel, Result.unlabel_setValue]

/-- **A group**, without the labels of its members. What it looks for in a single
member is a pool, which labels do not make. -/
theorem rollGroup_map (members : List (Rolling Result)) (mods : List (Modifier (Rolling Result))) :
    rollGroup (members.map unlabel) (mods.map (Modifier.map unlabel)) =
      Result.unlabel <$> rollGroup members mods := by
  have hitems (items : List Result) :
      (do return .group (settle (mods.map (Modifier.map unlabel))
        (← (mods.map (Modifier.map unlabel)).foldlM Modifier.applyToItems
          (items.map Result.unlabel))) : Rolling Result) =
      Result.unlabel <$> (do
        return .group (settle mods (← mods.foldlM Modifier.applyToItems items))) := by
    rw [foldlM_applyToItems_map blind_unlabel]
    simp [blind_unlabel.settle_map]
  rw [rollGroup, rollGroup, mapM_id_map_unlabel, bind_map_left, map_bind]
  refine bind_congr fun results => ?_
  rw [← Result.map_unlabel_numbered]
  generalize numbered results = items
  -- the cases of a group: no modifiers, a sole member that may be a pool, and others
  match mods, items with
  | [], items => simp
  | m :: rest, [member] =>
    simp only [List.map_cons, List.map_nil]
    rw [Result.isPooled_unlabel]
    split
    next =>
      have hpool := rollPool_map member (m :: rest)
      rw [List.map_cons] at hpool
      simp [hpool]
    next => exact hitems [member]
  | m :: rest, [] => exact hitems []
  | m :: rest, a :: b :: more => exact hitems (a :: b :: more)

/-! ### Chains -/

section Chains

variable {ω : Type} (apply : ω → Number → Number → Rolling Number)

/-- Terms are combined by their values, so labels play no part. -/
theorem rollLinks_map (order : Nat) (value : Number) (tail : List (Link ω (Rolling Result))) :
    rollLinks apply order value (tail.map (Link.map unlabel)) =
      (fun p => (p.1, p.2.map Result.unlabel)) <$> rollLinks apply order value tail := by
  induction tail generalizing order value with
  | nil => simp [rollLinks]
  | cons link rest ih =>
    rw [List.map_cons, rollLinks, rollLinks, Link.map, bind_map_left, map_bind]
    refine bind_congr fun term => ?_
    simp [← Result.unlabel_setOrder, ih]

theorem rollChain_map (head : Rolling Result) (tail : List (Link ω (Rolling Result))) :
    rollChain apply (unlabel head) (tail.map (Link.map unlabel)) =
      (fun p => (p.1, p.2.map Result.unlabel)) <$> rollChain apply head tail := by
  simp [rollChain, rollLinks_map]

end Chains

/-! ## Expressions -/

/-- **One layer**: its parts without labels make its result without labels. -/
theorem Form.roll_map (form : Form (Rolling Result)) :
    (form.map unlabel).roll = Result.unlabel <$> form.roll := by
  cases form with
  | number value | function fn arg => simp [Form.map, roll]
  | inline expr => rfl
  | die spec => exact spec.roll_map
  | group first rest mods => exact rollGroup_map (first :: rest) mods
  | sum head tail | chain head tail =>
    simp [Form.map, roll, rollChain_map, Function.comp_def, Link.map]

/-- A label on a form is lost with the others. -/
theorem Form.unlabel_rollLabelled (form : Form (Rolling Result)) (label : Option String) :
    Result.unlabel <$> form.rollLabelled label = Result.unlabel <$> form.roll := by
  simp [rollLabelled]

/-- Without its label and its brackets, a layer is rolled as the form alone. -/
theorem Form.roll_bareNode (form : Form Node) :
    form.bareNode.roll = (form.map Node.roll).roll := by
  cases form with
  | inline expr => rfl
  | number | die | group | sum | chain | function =>
    exact (Node.roll_term ..).trans (bind_pure _)

namespace Node

/-- **The bare expression** is rolled as the expression is, and gives its result
without labels. -/
theorem roll_bare (node : Node) : node.bare.roll = Result.unlabel <$> node.roll := by
  induction node using Node.induction with
  | term form label ih =>
    have hparts : form.map (Node.roll ∘ bare) = form.map (unlabel ∘ Node.roll) :=
      Form.map_congr ih
    calc (Node.term form label).bare.roll
        = ((form.map bare).map Node.roll).roll := by rw [bare_term, Form.roll_bareNode]
      _ = ((form.map Node.roll).map unlabel).roll := by
        rw [Form.map_map, hparts, ← Form.map_map]
      _ = Result.unlabel <$> (form.map Node.roll).roll := Form.roll_map _
      _ = Result.unlabel <$> (Node.term form label).roll := by
        rw [roll_term, Form.unlabel_rollLabelled]
  | unsupported => rw [bare_unsupported, roll_unsupported, Rolling.map_refuse]

/-- **Labels and double brackets never influence a roll.** Whatever the random
values and the ceiling are, an expression and its bare expression draw equally
often, and either halt alike or give results that are equal without labels. -/
theorem answer_roll_bare (node : Node) (σ : Setting) (n : Nat) :
    (node.bare.roll.answer σ n).2 = (node.roll.answer σ n).2 ∧
      (node.bare.roll.answer σ n).1.map Result.unlabel =
        (node.roll.answer σ n).1.map Result.unlabel := by
  rw [roll_bare, Rolling.answer_map]
  refine ⟨rfl, ?_⟩
  rcases (node.roll.answer σ n).1 with _ | r
  · rfl
  · exact congrArg Except.ok r.unlabel_unlabel

end Node

end DiceNotation
