import DiceNotation.Proofs.Roll.Mirrors
import DiceNotation.Proofs.Roll.Sizes

/-!
# Rolls that come to an end

Only the unbounded re-roll may go on for as long as there are values. Everything else
draws no more than a number that is known before (`Rolling.EndsWithin`), if it is known
how many dice there are; and that is bounded by the ceiling and by the modifiers. So an
expression without the unbounded re-roll has a number, computed from it and the ceiling
(`Node.mostDraws`), that bounds its draws whatever the values are: with as many values
left the roll ends, with a result or an error (`Node.answer_roll_ends`).
-/

namespace DiceNotation

open Counted

variable {ε φ : Type}

namespace Rolling

variable {α β : Type} {ceiling : UInt64} {b c : Nat} {m : Rolling α} {f : α → Rolling β}

/-! ## Bounded computations -/

/-- The computation draws at most `b` values, and it does not run out if there are as
many. -/
def EndsWithin (ceiling : UInt64) (b : Nat) (m : Rolling α) : Prop :=
  ∀ supply n, (m.answer ⟨supply, ceiling⟩ n).2 ≤ n + b ∧
    (n + b ≤ supply.limit → (m.answer ⟨supply, ceiling⟩ n).1 ≠ .error .unfinished)

theorem EndsWithin.mono (hm : m.EndsWithin ceiling b) (h : b ≤ c) : m.EndsWithin ceiling c := by
  intro supply n
  obtain ⟨hdraws, hends⟩ := hm supply n
  exact ⟨by omega, fun hlimit => hends (by omega)⟩

theorem endsWithin_pure (a : α) : (pure a : Rolling α).EndsWithin ceiling 0 :=
  fun _ n => ⟨Nat.le_refl n, fun _ h => by cases h⟩

theorem endsWithin_refuse (e : RollError) : (refuse e : Rolling α).EndsWithin ceiling 0 :=
  fun _ n => ⟨Nat.le_refl n, fun _ h => by cases h⟩

/-- **The bounds of a sequence add up**: the second step has to be bounded for what the
first may give. -/
theorem EndsWithin.bind (hm : m.EndsWithin ceiling b)
    (hf : ∀ supply n a d, m.answer ⟨supply, ceiling⟩ n = (.ok a, d) → (f a).EndsWithin ceiling c) :
    (m >>= f).EndsWithin ceiling (b + c) := by
  intro supply n
  obtain ⟨hdraws, hends⟩ := hm supply n
  rw [answer_bind]
  rcases ha : m.answer ⟨supply, ceiling⟩ n with ⟨halt | a, e⟩
  · rw [ha] at hdraws hends
    dsimp only at hdraws ⊢
    exact ⟨by omega, fun hlimit h => hends (by omega) (by cases h; rfl)⟩
  · rw [ha] at hdraws
    obtain ⟨hdraws', hends'⟩ := hf supply n a e ha supply e
    dsimp only at hdraws ⊢
    exact ⟨by omega, fun hlimit => hends' (by omega)⟩

/-- The same for what every first step gives. -/
theorem EndsWithin.bind_gives {Q : α → Prop} (hm : m.EndsWithin ceiling b) (hQ : m.Gives Q)
    (hf : ∀ a, Q a → (f a).EndsWithin ceiling c) : (m >>= f).EndsWithin ceiling (b + c) :=
  hm.bind fun supply n a d ha => hf a (hQ ⟨supply, ceiling⟩ n a d ha)

theorem EndsWithin.bind_pure (hm : m.EndsWithin ceiling b) (g : α → β) :
    (do return g (← m)).EndsWithin ceiling b :=
  hm.bind fun _ _ a _ _ => endsWithin_pure (g a)

theorem endsWithin_ite {p : Prop} [Decidable p] {x y : Rolling α} (hx : p → x.EndsWithin ceiling b)
    (hy : ¬p → y.EndsWithin ceiling b) : (if p then x else y).EndsWithin ceiling b := by
  split
  · exact hx ‹p›
  · exact hy ‹¬p›

/-- A loop draws what its steps draw together. -/
theorem endsWithin_mapM {f : α → Rolling β} {cost : α → Nat} {l : List α}
    (h : ∀ a ∈ l, (f a).EndsWithin ceiling (cost a)) :
    (l.mapM f).EndsWithin ceiling (l.map cost).sum := by
  induction l with
  | nil => exact endsWithin_pure []
  | cons a l ih =>
    rw [List.mapM_cons, List.map_cons, List.sum_cons]
    refine (h a List.mem_cons_self).bind fun _ _ first _ _ => ?_
    exact (ih fun a ha => h a (List.mem_cons_of_mem _ ha)).bind_pure _

theorem endsWithin_flatMapM {f : α → Rolling (List β)} (h : ∀ a, (f a).EndsWithin ceiling b)
    (l : List α) : (l.flatMapM f).EndsWithin ceiling (l.length * b) := by
  induction l with
  | nil => exact (endsWithin_pure []).mono (Nat.zero_le _)
  | cons a l ih =>
    rw [List.flatMapM_cons, List.length_cons, Nat.succ_mul, Nat.add_comm]
    exact (h a).bind fun _ _ first _ _ => ih.bind_pure _

/-! ## Rolling again -/

theorem endsWithin_rollFace (kind : DieType) : kind.rollFace.EndsWithin ceiling 1 := by
  intro supply n
  rw [answer_rollFace]
  split
  · exact ⟨Nat.le_refl _, fun _ h => by cases h⟩
  next hlimit => exact ⟨Nat.le_succ n, fun hleft => absurd hleft hlimit⟩

/-- Counting dice draws nothing. -/
theorem endsWithin_diceCount (requested : Number) : (diceCount requested).EndsWithin ceiling 0 := by
  intro supply n
  rw [answer_diceCount]
  refine ⟨Nat.le_refl n, fun _ h => ?_⟩
  dsimp only at h
  split at h <;> cases h

/-- So many dice draw so many values. -/
theorem endsWithin_rollMany (kind : DieType) (k : Nat) :
    (kind.rollMany k).EndsWithin ceiling k := by
  intro supply n
  rw [answer_rollMany]
  split
  next hlimit => exact ⟨Nat.le_add_right n k, fun hleft => by dsimp only at hlimit; omega⟩
  · exact ⟨Nat.le_refl _, fun _ h => by cases h⟩

section Chains

variable {kind : DieType} {trigger : Condition Number}

theorem endsWithin_roll (order : Nat) : (kind.roll order).EndsWithin ceiling 1 :=
  (endsWithin_rollFace kind).bind_pure _

/-- A chain draws a value for each step that it may take. -/
theorem endsWithin_explodeChain (penalty : Int64) (fuel : Nat) (d : RolledDie) :
    (explodeChain kind trigger penalty fuel d).EndsWithin ceiling fuel := by
  induction fuel generalizing d with
  | zero => exact endsWithin_pure [d]
  | succ fuel ih =>
    rw [explodeChain, Nat.add_comm]
    refine endsWithin_ite (fun _ => ?_) fun _ => (endsWithin_pure [d]).mono (Nat.zero_le _)
    exact (endsWithin_roll 0).bind fun _ _ next _ _ => (ih _).bind_pure _

theorem endsWithin_compoundChain (fuel : Nat) (last : Int64) (total : Number) :
    (compoundChain kind trigger fuel last total).EndsWithin ceiling fuel := by
  induction fuel generalizing last total with
  | zero => exact endsWithin_pure total
  | succ fuel ih =>
    rw [compoundChain, Nat.add_comm]
    refine endsWithin_ite (fun _ => ?_) fun _ => (endsWithin_pure total).mono (Nat.zero_le _)
    exact (endsWithin_rollFace kind).bind fun _ _ next _ _ => ih _ _

/-- A compounded die has no more steps than the longest chain. -/
theorem endsWithin_compoundDie (d : RolledDie) :
    (compoundDie kind trigger d).EndsWithin ceiling maxChain :=
  endsWithin_ite (fun _ => (endsWithin_compoundChain maxChain _ _).bind_pure _)
    fun _ => (endsWithin_pure d).mono (Nat.zero_le _)

theorem endsWithin_rerollOneTime (d : RolledDie) :
    (rerollOneTime kind trigger d).EndsWithin ceiling 1 :=
  endsWithin_ite (fun _ => (endsWithin_roll 0).bind_pure _)
    fun _ => (endsWithin_pure [d]).mono (Nat.zero_le _)

end Chains

end Rolling

/-! ## Modifiers -/

/-- The most values that a mechanic draws for one die. For the unbounded re-roll there is
no such number. -/
def Mechanic.mostDraws : Mechanic → Nat
  | .explode | .penetrate | .compound => maxChain
  | .rerollOnce => 1
  | .reroll => 0

/-- The most values that a modifier draws for one die. -/
def Modifier.mostDraws : Modifier ε → Nat
  | .again mechanic _ => mechanic.mostDraws
  | _ => 0

/-- The most values that modifiers draw for so many dice, and for those that they add. -/
def drawsOf : List (Modifier ε) → Nat → Nat
  | [], _ => 0
  | m :: mods, dice => dice * m.mostDraws + drawsOf mods (dice * m.mostDice)

namespace Rolling

variable {ceiling : UInt64}

/-- **A mechanic that may end at once** draws so many values for each die. -/
theorem endsWithin_mechanic {mechanic : Mechanic} (h : mechanic ≠ .reroll) (kind : DieType)
    (trigger : Condition Number) (rolls : List RolledDie) :
    (mechanic.apply kind trigger rolls).EndsWithin ceiling (rolls.length * mechanic.mostDraws) := by
  unfold Mechanic.apply
  refine endsWithin_ite (fun _ => (endsWithin_refuse _).mono (Nat.zero_le _)) fun _ => ?_
  cases mechanic with
  | explode => exact (endsWithin_flatMapM (endsWithin_explodeChain 0 maxChain) rolls).bind_pure _
  | penetrate => exact (endsWithin_flatMapM (endsWithin_explodeChain 1 maxChain) rolls).bind_pure _
  | compound =>
    refine (endsWithin_mapM fun d _ => endsWithin_compoundDie d).mono (Nat.le_of_eq ?_)
    rw [List.map_const', List.sum_replicate_nat]
    rfl
  | reroll => exact absurd rfl h
  | rerollOnce => exact (endsWithin_flatMapM endsWithin_rerollOneTime rolls).bind_pure _

section Modifiers

variable {roll : ε → Rolling Result} {cost : ε → Nat}

/-- A condition draws for its target. -/
theorem endsWithin_resolve {c : Condition ε}
    (h : (roll c.target).EndsWithin ceiling (cost c.target)) :
    (c.map roll).resolve.EndsWithin ceiling (cost c.target) :=
  h.bind_pure _

theorem endsWithin_applyToItems {α : Type} [Counted α] {m : Modifier ε}
    (h : ∀ x ∈ m.operands, (roll x).EndsWithin ceiling (cost x)) (items : List α) :
    ((m.map roll).applyToItems items).EndsWithin ceiling (m.operands.map cost).sum := by
  match m with
  | .select action extreme count => exact (h count List.mem_cons_self).bind_pure _
  | .test .success condition | .test .failure condition =>
    exact (endsWithin_resolve (h condition.target List.mem_cons_self)).bind_pure _
  | .test .crit _ | .test .critfail _ | .again .. | .unsupported =>
    exact (endsWithin_refuse _).mono (Nat.zero_le _)

theorem endsWithin_foldlM_items {α : Type} [Counted α] {mods : List (Modifier ε)}
    (h : ∀ m ∈ mods, ∀ x ∈ m.operands, (roll x).EndsWithin ceiling (cost x)) (items : List α) :
    ((mods.map (Modifier.map roll)).foldlM Modifier.applyToItems items).EndsWithin ceiling
      ((mods.flatMap Modifier.operands).map cost).sum := by
  induction mods generalizing items with
  | nil => exact endsWithin_pure items
  | cons m mods ih =>
    rw [List.map_cons, List.foldlM_cons, List.flatMap_cons, List.map_append, List.sum_append]
    obtain ⟨hm, hmods⟩ := List.forall_mem_cons.1 h
    exact (endsWithin_applyToItems hm items).bind fun _ _ items _ _ => ih hmods items

/-- Modifiers but the unbounded re-roll draw for their operands, and for each die as often
as they may. -/
theorem endsWithin_applyToDice {m : Modifier ε} (hm : m.applies .reroll = false)
    (h : ∀ x ∈ m.operands, (roll x).EndsWithin ceiling (cost x)) (kind : DieType)
    (rolls : List RolledDie) :
    ((m.map roll).applyToDice kind rolls).EndsWithin ceiling
      ((m.operands.map cost).sum + rolls.length * m.mostDraws) := by
  match m with
  | .select action extreme count => exact (h count List.mem_cons_self).bind_pure _
  | .test .success condition | .test .failure condition | .test .crit condition
  | .test .critfail condition =>
    exact (endsWithin_resolve (h condition.target List.mem_cons_self)).bind_pure _
  | .again mechanic (some trigger) =>
    have hbounded : mechanic ≠ .reroll := by simpa [Modifier.applies] using hm
    exact (endsWithin_resolve (h trigger.target List.mem_cons_self)).bind
      fun _ _ trigger _ _ => endsWithin_mechanic hbounded kind trigger rolls
  | .again mechanic none =>
    have hbounded : mechanic ≠ .reroll := by simpa [Modifier.applies] using hm
    exact (endsWithin_mechanic hbounded kind _ rolls).mono (Nat.le_add_left _ _)
  | .unsupported => exact (endsWithin_refuse _).mono (Nat.zero_le _)

/-- **Modifiers of dice**: each finds no more dice than those before it may leave. -/
theorem endsWithin_foldlM_dice {mods : List (Modifier ε)}
    (hmods : ∀ m ∈ mods, m.applies .reroll = false)
    (h : ∀ m ∈ mods, ∀ x ∈ m.operands, (roll x).EndsWithin ceiling (cost x)) (kind : DieType)
    {rolls : List RolledDie} {dice : Nat} (hrolls : rolls.length ≤ dice) :
    ((mods.map (Modifier.map roll)).foldlM (Modifier.applyToDice kind) rolls).EndsWithin ceiling
      (((mods.flatMap Modifier.operands).map cost).sum + drawsOf mods dice) := by
  induction mods generalizing rolls dice with
  | nil => exact endsWithin_pure rolls
  | cons m mods ih =>
    obtain ⟨hm, hmods⟩ := List.forall_mem_cons.1 hmods
    obtain ⟨hoperands, h⟩ := List.forall_mem_cons.1 h
    rw [List.map_cons, List.foldlM_cons, List.flatMap_cons, List.map_append, List.sum_append]
    have hdice {next : List RolledDie} (hleaves : (m.map roll).Leaves rolls.length next.length) :
        next.length ≤ dice * m.mostDice := by
      have hmost := hleaves.most (by simpa using hm)
      rw [Modifier.mostDice_map] at hmost
      exact Nat.le_trans hmost (Nat.mul_le_mul_right _ hrolls)
    refine ((endsWithin_applyToDice hm hoperands kind rolls).bind_gives
      (gives_length_applyToDice (m.map roll) kind rolls)
      fun next hleaves => ih hmods h (hdice hleaves)).mono ?_
    have := Nat.mul_le_mul_right m.mostDraws hrolls
    rw [drawsOf]
    omega

end Modifiers

/-! ## Layers -/

section Layers

variable {roll : ε → Rolling Result} {cost : ε → Nat}

/-- Sides draw for their expression. -/
theorem endsWithin_resolveSides {sides : Sides ε}
    (h : ∀ x ∈ sides.parts, (roll x).EndsWithin ceiling (cost x)) :
    (sides.map roll).resolve.EndsWithin ceiling (sides.parts.map cost).sum := by
  cases sides with
  | fate => exact endsWithin_pure _
  | numeric faces =>
    exact (h faces List.mem_cons_self).bind fun _ _ r _ _ =>
      endsWithin_ite (fun _ => endsWithin_pure _) fun _ => endsWithin_refuse _

theorem endsWithin_faces {m : Matching ε}
    (h : ∀ x ∈ m.operands, (roll x).EndsWithin ceiling (cost x)) (rolls : List RolledDie) :
    ((m.map roll).faces rolls).EndsWithin ceiling (m.operands.map cost).sum := by
  obtain ⟨hleast, htarget⟩ := List.forall_mem_cons.1 h
  refine hleast.bind fun _ _ least _ _ => EndsWithin.bind_pure ?_ _
  obtain ⟨least, counts, compare, target⟩ := m
  cases compare with
  | none => exact (endsWithin_pure none).mono (Nat.zero_le _)
  | some compare =>
    cases target with
    | none => exact endsWithin_pure none
    | some target =>
      have hresolve :=
        endsWithin_resolve (c := ⟨compare, target⟩) (htarget target List.mem_cons_self)
      exact hresolve.bind_pure some

/-- Concluding draws for the operands of the match. -/
theorem endsWithin_conclude {spec : DieSpec ε}
    (h : ∀ m ∈ spec.matching, ∀ x ∈ m.operands, (roll x).EndsWithin ceiling (cost x))
    (count : Result) (sides : Sides Result) (rolls : List RolledDie) :
    ((spec.map roll).conclude count sides rolls).EndsWithin ceiling
      ((spec.matching.toList.flatMap Matching.operands).map cost).sum := by
  rw [DieSpec.conclude, DieSpec.map]
  cases hmatching : spec.matching with
  | none => exact endsWithin_pure _
  | some m =>
    refine ((endsWithin_faces (h m hmatching) rolls).bind_pure _).mono (Nat.le_of_eq ?_)
    simp

/-- As many dice as the ceiling allows, and what the modifiers draw for so many. -/
theorem endsWithin_rollDice {spec : DieSpec ε}
    (hmods : ∀ m ∈ (Form.die spec).modifiers, m.applies .reroll = false)
    (h : ∀ m ∈ (Form.die spec).modifiers, ∀ x ∈ m.operands, (roll x).EndsWithin ceiling (cost x))
    (kind : DieType) {k : Nat} (hk : k ≤ ceiling.toNat) :
    ((spec.map roll).rollDice kind k).EndsWithin ceiling (ceiling.toNat +
      ((((Form.die spec).modifiers.flatMap Modifier.operands).map cost).sum +
        drawsOf (Form.die spec).modifiers ceiling.toNat)) := by
  rw [DieSpec.rollDice_eq, DieSpec.modifiers_map]
  refine ((endsWithin_rollMany kind k).mono hk).bind_gives (gives_length_rollMany kind k)
    fun rolls hrolls => (endsWithin_foldlM_dice hmods h kind ?_).bind_pure _
  exact Nat.le_trans (Nat.le_of_eq hrolls) hk

/-- **The dice of a specification**: the count, the sides, the dice, the match. -/
theorem endsWithin_dice {spec : DieSpec ε} (hceiling : ceiling.toNat < 0x20000000000000)
    (hmods : ∀ m ∈ (Form.die spec).modifiers, m.applies .reroll = false)
    (h : ∀ x ∈ (Form.die spec).parts, (roll x).EndsWithin ceiling (cost x)) :
    (spec.map roll).roll.EndsWithin ceiling
      (((Form.die spec).parts.map cost).sum +
        (ceiling.toNat + drawsOf (Form.die spec).modifiers ceiling.toNat)) := by
  have hterm {x : ε} (hx : x ∈ (Form.die spec).terms) : (roll x).EndsWithin ceiling (cost x) :=
    h x (Form.mem_parts_of_mem_terms hx)
  have hmod (m : Modifier ε) (hm : m ∈ (Form.die spec).modifiers) (x : ε) (hx : x ∈ m.operands) :
      (roll x).EndsWithin ceiling (cost x) :=
    h x (Form.mem_parts_of_mem_operands (Form.mem_operands_of_mem_modifiers hm hx))
  have hmatch (m : Matching ε) (hm : m ∈ spec.matching) (x : ε) (hx : x ∈ m.operands) :
      (roll x).EndsWithin ceiling (cost x) :=
    h x (Form.mem_parts_of_mem_operands (Form.mem_operands_of_mem_matching? hm hx))
  have hcount := hterm List.mem_cons_self
  have hsides : (spec.sides.map roll).resolve.EndsWithin ceiling (spec.sides.parts.map cost).sum :=
    endsWithin_resolveSides fun x hx => hterm (List.mem_cons_of_mem _ hx)
  have hdice (count : Result) {k : Nat} (hk : k ≤ ceiling.toNat) :=
    hsides.bind fun _ _ resolved _ _ =>
      (endsWithin_rollDice hmods hmod resolved.2 hk).bind fun _ _ rolls _ _ =>
        endsWithin_conclude hmatch count resolved.1 rolls
  refine (hcount.bind fun _ _ count _ _ => (endsWithin_diceCount count.value).bind
    fun _ _ _ _ hk => hdice count (requests_of_answer_diceCount hceiling hk).1.le).mono ?_
  simp only [Form.parts, Form.terms, Form.operands, Form.matching?, List.map_append,
    List.sum_append, List.map_cons, List.sum_cons]
  omega

/-- A group draws for its members and for the operands of its modifiers. -/
theorem endsWithin_rollGroup {members : List ε} {mods : List (Modifier ε)}
    (hmembers : ∀ x ∈ members, (roll x).EndsWithin ceiling (cost x))
    (hmods : ∀ m ∈ mods, ∀ x ∈ m.operands, (roll x).EndsWithin ceiling (cost x)) :
    (rollGroup (members.map roll) (mods.map (Modifier.map roll))).EndsWithin ceiling
      ((members.map cost).sum + ((mods.flatMap Modifier.operands).map cost).sum) := by
  have hresults : ((members.map roll).mapM id).EndsWithin ceiling (members.map cost).sum := by
    rw [List.mapM_map]
    exact endsWithin_mapM hmembers
  refine hresults.bind fun _ _ results _ _ => ?_
  dsimp only
  split
  · exact (endsWithin_pure _).mono (Nat.zero_le _)
  · refine endsWithin_ite (fun _ => ?_) fun _ => (endsWithin_foldlM_items hmods _).bind_pure _
    exact ((endsWithin_foldlM_items hmods _).bind_pure _).bind_pure _
  · exact (endsWithin_foldlM_items hmods _).bind_pure _

section Chains

variable {ω : Type} {apply : ω → Number → Number → Rolling Number}
  (happly : ∀ op x y, (apply op x y).EndsWithin ceiling 0) {tail : List (Link ω ε)}

include happly

/-- Terms draw for themselves, one after the other. -/
theorem endsWithin_rollLinks (h : ∀ l ∈ tail, (roll l.term).EndsWithin ceiling (cost l.term))
    (order : Nat) (value : Number) :
    (rollLinks apply order value (tail.map (Link.map roll))).EndsWithin ceiling
      ((tail.map Link.term).map cost).sum := by
  induction tail generalizing order value with
  | nil => exact endsWithin_pure _
  | cons link tail ih =>
    obtain ⟨hlink, htail⟩ := List.forall_mem_cons.1 h
    rw [List.map_cons, List.map_cons, List.sum_cons, ← Nat.zero_add ((List.map _ _).sum)]
    exact hlink.bind fun _ _ r _ _ => (happly _ _ _).bind fun _ _ value _ _ =>
      (ih htail _ _).bind_pure _

theorem endsWithin_rollChain {head : ε} (hhead : (roll head).EndsWithin ceiling (cost head))
    (h : ∀ l ∈ tail, (roll l.term).EndsWithin ceiling (cost l.term)) :
    (rollChain apply (roll head) (tail.map (Link.map roll))).EndsWithin ceiling
      (cost head + ((tail.map Link.term).map cost).sum) :=
  hhead.bind fun _ _ first _ _ => (endsWithin_rollLinks happly h 0 first.value).bind_pure _

end Chains

theorem endsWithin_rollApply (op : ArithOp) (x y : Number) :
    (op.rollApply x y).EndsWithin ceiling 0 := by
  cases op with
  | add | sub | mul | pow => exact endsWithin_pure _
  | div | rem => exact endsWithin_ite (fun _ => endsWithin_refuse _) fun _ => endsWithin_pure _

end Layers

end Rolling

/-! ## Expressions -/

/-- The most values that a form draws itself, beside those that its parts draw. -/
def Form.ownDraws (ceiling : Nat) : Form ε → Nat
  | .die spec => ceiling + drawsOf (Form.die spec).modifiers ceiling
  | _ => 0

/-- What modifiers draw for dice depends on their kinds only. -/
theorem drawsOf_map (f : ε → φ) (mods : List (Modifier ε)) (dice : Nat) :
    drawsOf (mods.map (Modifier.map f)) dice = drawsOf mods dice := by
  induction mods generalizing dice with
  | nil => rfl
  | cons m mods ih =>
    have hdraws : (m.map f).mostDraws = m.mostDraws := by cases m <;> rfl
    rw [List.map_cons, drawsOf, drawsOf, ih, hdraws, Modifier.mostDice_map]

theorem Form.ownDraws_map (f : ε → φ) (ceiling : Nat) (form : Form ε) :
    (form.map f).ownDraws ceiling = form.ownDraws ceiling := by
  cases form with
  | die spec => rw [Form.map, ownDraws, DieSpec.modifiers_map, drawsOf_map, ownDraws]
  | number | inline | group | sum | chain | function => rfl

open Rolling in
/-- **One layer** draws what its parts draw, and what it draws for dice of its own. -/
theorem Form.endsWithin_roll {ceiling : UInt64} (hceiling : ceiling.toNat < 0x20000000000000)
    {roll : ε → Rolling Result} {cost : ε → Nat} {form : Form ε}
    (hmods : ∀ m ∈ form.modifiers, m.applies .reroll = false)
    (h : ∀ x ∈ form.parts, (roll x).EndsWithin ceiling (cost x)) :
    (form.map roll).roll.EndsWithin ceiling
      ((form.parts.map cost).sum + form.ownDraws ceiling.toNat) := by
  have hterm {x : ε} (hx : x ∈ form.terms) : (roll x).EndsWithin ceiling (cost x) :=
    h x (Form.mem_parts_of_mem_terms hx)
  cases form with
  | number value => exact endsWithin_pure _
  | inline expr => exact hterm List.mem_cons_self
  | die spec => exact endsWithin_dice hceiling hmods h
  | group first rest mods =>
    obtain ⟨hfirst, hrest, hmods⟩ := forall_parts_group.1 h
    have hgroup := endsWithin_rollGroup (List.forall_mem_cons.2 ⟨hfirst, hrest⟩) hmods
    refine hgroup.mono (Nat.le_of_eq ?_)
    simp [Form.parts, Form.terms, Form.operands, Form.modifiers, Form.matching?, Form.ownDraws,
      Nat.add_assoc]
  | sum head tail =>
    rw [parts_sum]
    exact (endsWithin_rollChain (fun _ _ _ => endsWithin_pure _) (hterm List.mem_cons_self)
      fun l hl => hterm (List.mem_cons_of_mem _ (List.mem_map_of_mem hl))).bind_pure _
  | chain head tail =>
    rw [parts_chain]
    exact (endsWithin_rollChain endsWithin_rollApply (hterm List.mem_cons_self)
      fun l hl => hterm (List.mem_cons_of_mem _ (List.mem_map_of_mem hl))).bind_pure _
  | function fn arg => exact (hterm List.mem_cons_self).bind_pure _

namespace Node

/-- The most values that an expression draws under a ceiling, if it has no unbounded
re-roll. -/
def mostDraws (ceiling : Nat) : Node → Nat :=
  Node.fold (fun form _ => form.parts.sum + form.ownDraws ceiling) 0

/-- An expression draws for its parts, and a specification for its own dice. -/
theorem mostDraws_term (ceiling : Nat) (form : Form Node) (label : Option String) :
    (term form label).mostDraws ceiling =
      (form.parts.map (mostDraws ceiling)).sum + form.ownDraws ceiling := by
  rw [mostDraws, Node.fold_term, Form.parts_map, Form.ownDraws_map]

/-- No unbounded re-roll anywhere in the expression. -/
inductive NeverRerolls : Node → Prop
  | term {form : Form Node} {label : Option String} :
    (∀ m ∈ form.modifiers, m.applies .reroll = false) → (∀ n ∈ form.parts, n.NeverRerolls) →
      NeverRerolls (.term form label)
  | unsupported : NeverRerolls .unsupported

/-- **Without the unbounded re-roll, every roll ends** within a number of draws that the
expression and the ceiling give. -/
theorem NeverRerolls.endsWithin {node : Node} (h : node.NeverRerolls) {ceiling : UInt64}
    (hceiling : ceiling.toNat < 0x20000000000000) :
    node.roll.EndsWithin ceiling (node.mostDraws ceiling.toNat) := by
  induction h with
  | unsupported =>
    rw [Node.roll_unsupported]
    exact (Rolling.endsWithin_refuse _).mono (Nat.zero_le _)
  | @term form label hmods _ ih =>
    rw [Node.roll_term, mostDraws_term]
    exact (Form.endsWithin_roll hceiling hmods ih).bind_pure _

/-- What is known of specifications without the unbounded re-roll is known of all in such
an expression. -/
theorem NeverRerolls.mirroredBy
    {P P' : DieSpec Node → Result → Sides Result → List RolledDie → Prop}
    (hP : ∀ spec count sides rolls, (∀ m ∈ (Form.die spec).modifiers, m.applies .reroll = false) →
      P spec count sides rolls → P' spec count sides rolls)
    {node : Node} (hnode : node.NeverRerolls) {r : Result} (h : node.MirroredBy P r) :
    node.MirroredBy P' r := by
  induction h with
  | inline _ ih =>
    obtain ⟨-, hparts⟩ := hnode
    exact .inline (ih (hparts _ List.mem_cons_self))
  | layer hmakes hlength _ ih =>
    obtain ⟨hmods, hparts⟩ := hnode
    refine .layer (hmakes.imp fun spec hspec count sides rolls => ?_) hlength fun p hp => ih p hp ?_
    · subst hspec
      exact hP spec count sides rolls hmods
    · exact hparts _ (Form.mem_parts_of_mem_terms (List.of_mem_zip hp).1)

/-- **Without the unbounded re-roll, every roll ends**, with a result or an error, within
a number of draws that is known before, whatever the values are. Every specification in
the result has no more dice than its count asks for, times a thousand and one for each
modifier that explodes or penetrates, times two for each re-roll of one time; and
compounding draws a thousand values at most for each die. -/
theorem answer_roll_ends {node : Node} (hnode : node.NeverRerolls) {ceiling : UInt64}
    (hceiling : ceiling.toNat < 0x20000000000000) :
    node.roll.EndsWithin ceiling (node.mostDraws ceiling.toNat) ∧
    (∀ supply n r d, node.roll.answer ⟨supply, ceiling⟩ n = (.ok r, d) →
      node.MirroredBy (fun spec count _ rolls =>
        ∃ k, count.value.CountsAs ceiling k ∧ count.value.Requests ceiling.toNat k ∧
          rolls.length ≤ k * ((maxChain + 1) ^
            ((Form.die spec).modifiers.countP (Modifier.applies .explode) +
              (Form.die spec).modifiers.countP (Modifier.applies .penetrate)) *
            2 ^ (Form.die spec).modifiers.countP (Modifier.applies .rerollOnce))) r) ∧
    ∀ kind trigger,
      (∀ die, (compoundDie kind trigger die).EndsWithin ceiling maxChain) ∧
      ∀ rolls, (Mechanic.compound.apply kind trigger rolls).EndsWithin ceiling
        (rolls.length * maxChain) := by
  refine ⟨hnode.endsWithin hceiling, fun supply n r d hr => ?_, fun kind trigger => ?_⟩
  · refine hnode.mirroredBy (P := fun spec count _ rolls => ∃ k, count.value.CountsAs ceiling k ∧
      count.value.Requests ceiling.toNat k ∧ spec.Holds k rolls.length) ?_ ?_
    · -- each mechanic multiplies the dice by what it may add
      rintro spec count sides rolls hmods ⟨k, hcounts, hrequests, hholds⟩
      refine ⟨k, hcounts, hrequests, ?_⟩
      rw [← prod_mostDice]
      exact hholds.most hmods
    · refine givesAt_mirroredBy (fun hroll hshape => ?_) (fun _ _ _ _ _ hrolls h => ?_)
        node n r d hr
      · obtain ⟨k, hcounts, hrequests, hholds⟩ :=
          DieSpec.exists_holds_of_answer_roll hceiling hroll hshape
        exact ⟨k, hcounts, hrequests, hholds.of_map⟩
      · rwa [← hrolls.length_eq]
  · exact ⟨Rolling.endsWithin_compoundDie, Rolling.endsWithin_mechanic (by decide) kind trigger⟩

theorem neverRerolls_int (value : Int64) : (int value).NeverRerolls :=
  .term (by simp [Form.modifiers]) (by simp)

/-- Exploding dice that are rolled again once: ten at most are rolled under a ceiling of
ten, a thousand more for each of them, and each of all these once more. -/
theorem answer_roll_ends_exploding :
    let dice : Node := .term (.die {
      sides := .numeric (.int 6), count := .int 2,
      mods := [.again .explode none, .again .rerollOnce none] }) none
    dice.NeverRerolls ∧ (10 : UInt64).toNat < 0x20000000000000 ∧ dice.roll.EndsWithin 10 20020 := by
  intro dice
  have hdice : dice.NeverRerolls := by
    refine .term (by simp [Form.modifiers, Modifier.applies]) ?_
    simpa [Form.parts, Form.terms, Form.operands, Form.modifiers, Form.matching?, Sides.parts,
      Modifier.operands] using ⟨neverRerolls_int 2, neverRerolls_int 6⟩
  have hceiling : (10 : UInt64).toNat < 0x20000000000000 := by decide
  have hmost : dice.mostDraws 10 = 20020 := by decide +kernel
  refine ⟨hdice, hceiling, ?_⟩
  rw [← hmost]
  exact (answer_roll_ends hdice hceiling).1

end Node

end DiceNotation
