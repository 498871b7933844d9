import DiceNotation.Proofs.Notation.Grammatical
import DiceNotation.Proofs.Roll.Running
import DiceNotation.Roll.Evaluate

/-!
# The steps of an evaluation

An evaluation draws, counts, refuses, and puts such steps one after the other.
So a property of computations that the steps have and that sequencing keeps
(`Rolling.OfSteps`) is one of the roll of every form whose parts have it
(`OfSteps.form`), and of the roll of every expression. Only dice draw, so the
other forms need no more than sequencing and refusing (`Rolling.OfRefusals`).

Refusing what is unknown is kept apart (`Rolling.HasRefusals`), since a form
that knows all of its modifiers (`Form.Supported`) never does it.
-/

namespace DiceNotation

/-! ## What is unknown -/

/-- An expression or a modifier of an unknown kind, or one out of place. -/
def RollError.isUnsupported : RollError → Bool
  | .unsupportedNode | .unsupportedModifier | .unsupportedOnGroup _ => true
  | _ => false

namespace Rolling

/-! ## The answers of steps -/

/-- More dice than the ceiling are refused, and else all of them are counted. -/
theorem answer_diceCount (σ : Setting) (n : Nat) (requested : Number) :
    (diceCount requested).answer σ n =
      (if requested.above (.int σ.ceiling.toInt64) then
        .error (.refused (.limitExceeded requested σ.ceiling))
      else .ok (requested.toCount maxCount), n) := by
  rw [diceCount, answer_bind, answer_read]
  simp only [answer_ite]
  split <;> rfl

section Reroll

variable {kind : DieType} {trigger : Condition Number}

/-- The unbounded re-roll has as much fuel as values are left. -/
theorem answer_rerollToMiss (σ : Setting) (die : RolledDie) (n : Nat) :
    (rerollToMiss kind trigger die).answer σ n =
      (rerollChain kind trigger (σ.supply.limit - n + 1) [] die).answer σ n := by
  rw [rerollToMiss, answer_bind, answer_remaining]

/-- A re-roll is not refused: it ends with dice, or with the supply. -/
theorem eq_unfinished_of_answer_rerollChain {σ : Setting} {h : Halt} {d : Nat} (fuel : Nat)
    (before : List RolledDie) (die : RolledDie) (n : Nat)
    (hm : (rerollChain kind trigger fuel before die).answer σ n = (.error h, d)) :
    h = .unfinished ∧ n ≤ d := by
  induction fuel generalizing before die n with
  | zero =>
    rw [rerollChain, answer_throw] at hm
    cases hm
    exact ⟨rfl, Nat.le_refl _⟩
  | succ fuel ih =>
    rw [rerollChain, answer_ite] at hm
    split at hm
    · rcases answer_bind_eq_error.1 hm with hm | ⟨next, e, hnext, hm⟩
      · rw [answer_roll] at hm
        split at hm <;> cases hm
        exact ⟨rfl, Nat.le_refl _⟩
      · obtain ⟨-, rfl, -⟩ := answer_roll_eq_ok hnext
        exact (ih _ _ _ hm).imp_right (by omega)
    · cases hm

end Reroll

/-! ## Rolling again -/

namespace Closed

variable {P : ∀ ⦃α : Type⦄, Rolling α → Prop} (hP : Closed P) {kind : DieType}

include hP

theorem rollDie (hroll : P kind.rollFace) (order : Nat) : P (kind.roll order) :=
  hP.bind hroll fun _ => hP.pure _

/-- An exploding chain draws a face at each step. -/
theorem explodeChain (hroll : P kind.rollFace) (trigger : Condition Number) (penalty : Int64)
    (n : Nat) (d : RolledDie) : P (explodeChain kind trigger penalty n d) := by
  induction n generalizing d with
  | zero => exact hP.pure _
  | succ n ih =>
    rw [DiceNotation.explodeChain]
    split
    · exact hP.bind (hP.rollDie hroll 0) fun next => hP.bind (ih _) fun chain => hP.pure _
    · exact hP.pure _

/-- So does a compounding one. -/
theorem compoundChain (hroll : P kind.rollFace) (trigger : Condition Number) (n : Nat)
    (last : Int64) (total : Number) : P (compoundChain kind trigger n last total) := by
  induction n generalizing last total with
  | zero => exact hP.pure _
  | succ n ih =>
    rw [DiceNotation.compoundChain]
    split
    · exact hP.bind hroll fun next => ih _ _
    · exact hP.pure _

theorem compoundDie (hroll : P kind.rollFace) (trigger : Condition Number) (d : RolledDie) :
    P (compoundDie kind trigger d) := by
  rw [DiceNotation.compoundDie]
  split
  · exact hP.bind (hP.compoundChain hroll trigger _ _ _) fun total => hP.pure _
  · exact hP.pure _

theorem rerollOneTime (hroll : P kind.rollFace) (trigger : Condition Number) (d : RolledDie) :
    P (rerollOneTime kind trigger d) := by
  rw [DiceNotation.rerollOneTime]
  split
  · exact hP.bind (hP.rollDie hroll 0) fun next => hP.pure _
  · exact hP.pure _

/-- A mechanic that is not refused rolls the dice of one kind again. -/
theorem mechanic {trigger : Condition Number} (hends : hitsAll trigger kind = false)
    (hroll : P kind.rollFace) (hmiss : ∀ d, P (rerollToMiss kind trigger d))
    (mechanic : Mechanic) (rolls : List RolledDie) : P (mechanic.apply kind trigger rolls) := by
  unfold Mechanic.apply
  rw [if_neg (by simp [hends])]
  have hexplode (penalty : Int64) : P (explodeAll kind trigger penalty rolls) :=
    hP.bind (hP.flatMapM fun d _ => hP.explodeChain hroll trigger penalty _ d) fun _ => hP.pure _
  cases mechanic with
  | explode => exact hexplode 0
  | penetrate => exact hexplode 1
  | compound => exact hP.mapM fun d _ => hP.compoundDie hroll trigger d
  | reroll => exact hP.bind (hP.flatMapM fun d _ => hmiss d) fun _ => hP.pure _
  | rerollOnce =>
    exact hP.bind (hP.flatMapM fun d _ => hP.rerollOneTime hroll trigger d) fun _ => hP.pure _

end Closed

/-! ## What the steps have -/

/-- Refusing has the property, whatever the error. -/
def HasRefusals (P : ∀ ⦃α : Type⦄, Rolling α → Prop) : Prop :=
  ∀ ⦃α : Type⦄ (e : RollError), P (refuse e : Rolling α)

/-- A property of computations that refusing what is known has, and that
sequencing keeps. -/
structure OfRefusals (P : ∀ ⦃α : Type⦄, Rolling α → Prop) : Prop extends Closed P where
  refuse : ∀ {α : Type} (e : RollError), e.isUnsupported = false → P (refuse e : Rolling α)

/-- A property of computations that the steps of an evaluation have, and that
sequencing keeps. -/
structure OfSteps (P : ∀ ⦃α : Type⦄, Rolling α → Prop) : Prop extends OfRefusals P where
  diceCount : ∀ requested, P (diceCount requested)
  rollFace : ∀ kind : DieType, P kind.rollFace
  rollMany : ∀ (kind : DieType) n, P (kind.rollMany n)
  rerollToMiss : ∀ kind trigger d, P (rerollToMiss kind trigger d)

/-- Rolling dice of the kind has the property, for the first time and again. -/
structure OfKind (P : ∀ ⦃α : Type⦄, Rolling α → Prop) (kind : DieType) : Prop where
  rollMany : ∀ n, P (kind.rollMany n)
  again : ∀ mechanic trigger rolls, P (Mechanic.apply mechanic kind trigger rolls)

namespace OfRefusals

variable {P : ∀ ⦃α : Type⦄, Rolling α → Prop} (hP : OfRefusals P)

include hP

/-! ## What draws nothing by itself -/

/-- A condition is resolved by its target. -/
theorem resolve {c : Condition (Rolling Result)} (h : P c.target) : P c.resolve :=
  hP.bind h fun _ => hP.pure _

/-- Modifiers of items resolve their operands, and refuse what does not fit. -/
theorem applyToItems {α : Type} [Counted α] {m : Modifier (Rolling Result)}
    (hm : ∀ x ∈ m.operands, P x)
    (hfits : m.fitsGroups ∨ HasRefusals P)
    (items : List α) : P (m.applyToItems items) := by
  match m with
  | .select action extreme count =>
    exact hP.bind (hm count (by simp [Modifier.operands])) fun _ => hP.pure _
  | .test meaning condition =>
    have h := hP.resolve (hm condition.target (by simp [Modifier.operands]))
    cases meaning with
    | success | failure => exact hP.bind h fun _ => hP.pure _
    | crit | critfail =>
      -- a mark on a die is no modifier of groups
      rcases hfits with h | h
      · simp [Modifier.fitsGroups, Modifier.isTarget] at h
      · exact h _
  | .again .. | .unsupported =>
    rcases hfits with h | h
    · simp [Modifier.fitsGroups, Modifier.isTarget] at h
    · exact h _

theorem resolveSides {sides : Sides (Rolling Result)} (h : ∀ x ∈ sides.parts, P x) :
    P sides.resolve := by
  cases sides with
  | fate => exact hP.pure _
  | numeric faces =>
    refine hP.bind (h faces (by simp [Sides.parts])) fun r => ?_
    split
    · exact hP.pure _
    · exact hP.refuse _ rfl

theorem matchedFaces {m : Matching (Rolling Result)} (h : ∀ x ∈ m.operands, P x)
    (rolls : List RolledDie) : P (m.faces rolls) := by
  have hcondition : P m.condition? := by
    rw [Matching.condition?]
    split
    next compare target _ htarget =>
      exact hP.map some (hP.resolve (h target (by simp [Matching.operands, htarget])))
    next => exact hP.pure none
  exact hP.bind (h m.least List.mem_cons_self) fun _ => hP.bind hcondition fun _ => hP.pure _

/-- Concluding resolves the match. -/
theorem conclude {spec : DieSpec (Rolling Result)}
    (h : ∀ m ∈ spec.matching, ∀ x ∈ m.operands, P x) (count : Result) (sides : Sides Result)
    (rolls : List RolledDie) : P (spec.conclude count sides rolls) := by
  rw [DieSpec.conclude]
  split
  next => exact hP.pure _
  next matching hmatching =>
    exact hP.bind (hP.matchedFaces (h _ hmatching) rolls) fun _ => hP.pure _

/-- The roll of a group, if its members and the operands of its modifiers have
the property. -/
theorem group {members : List (Rolling Result)} {mods : List (Modifier (Rolling Result))}
    (hmembers : ∀ x ∈ members, P x) (hmods : ∀ m ∈ mods, ∀ x ∈ m.operands, P x)
    (hfits : (∀ m ∈ mods, m.fitsGroups) ∨ HasRefusals P) : P (rollGroup members mods) := by
  -- the same modifiers, whether they go to dice or to members
  have hitems {α : Type} [Counted α] (items : List α) :
      P (mods.foldlM Modifier.applyToItems items) :=
    hP.foldlM (fun items m hm => hP.applyToItems (hmods m hm) (hfits.imp_left (· m hm)) items) items
  refine hP.bind (hP.mapM fun x hx => hmembers x hx) fun results => ?_
  dsimp only
  split
  · exact hP.pure _
  · split
    · exact hP.bind (hP.bind (hitems _) fun _ => hP.pure _) fun _ => hP.pure _
    · exact hP.bind (hitems _) fun _ => hP.pure _
  · exact hP.bind (hitems _) fun _ => hP.pure _

theorem rollApply (op : ArithOp) (left right : Number) : P (op.rollApply left right) := by
  cases op with
  | add | sub | mul | pow => exact hP.pure _
  | div | rem =>
    rw [ArithOp.rollApply]
    split
    · exact hP.refuse _ rfl
    · exact hP.pure _

/-- A chain rolls its terms and combines them. -/
theorem chain {ω : Type} {apply : ω → Number → Number → Rolling Number}
    (happly : ∀ op x y, P (apply op x y)) {head : Rolling Result}
    {tail : List (Link ω (Rolling Result))} (hhead : P head) (htail : ∀ l ∈ tail, P l.term) :
    P (rollChain apply head tail) := by
  have hlinks (order : Nat) (value : Number) : P (rollLinks apply order value tail) := by
    -- the value so far and the place change with every link
    clear hhead
    induction tail generalizing order value with
    | nil => exact hP.pure _
    | cons link tail ih =>
      refine hP.bind (htail link List.mem_cons_self) fun term => ?_
      refine hP.bind (happly _ _ _) fun value => ?_
      exact hP.bind (ih (fun l hl => htail l (List.mem_cons_of_mem _ hl)) _ _) fun _ => hP.pure _
  exact hP.bind hhead fun head => hP.bind (hlinks 0 head.value) fun _ => hP.pure _

/-- **A layer without dice of its own** has the property if its parts have it,
drawing or not. -/
theorem layer {form : Form (Rolling Result)} (hform : form.isDie = false)
    (hparts : ∀ x ∈ form.parts, P x)
    (hsupported : form.Supported ∨ HasRefusals P) : P form.roll := by
  have hterm {x : Rolling Result} (hx : x ∈ form.terms) : P x :=
    hparts x (Form.mem_parts_of_mem_terms hx)
  cases form with
  | number value => exact hP.pure _
  | inline expr => exact hterm List.mem_cons_self
  | die spec => cases hform
  | group first rest mods =>
    refine hP.group (fun x hx => hterm hx) (fun m hm x hx => hparts x ?_) hsupported
    exact Form.mem_parts_of_mem_operands (Form.mem_operands_of_mem_modifiers hm hx)
  | sum head tail =>
    refine hP.bind (hP.chain (fun op x y => hP.pure _) (hterm List.mem_cons_self) ?_)
      fun _ => hP.pure _
    exact fun l hl => hterm (List.mem_cons_of_mem _ (List.mem_map_of_mem hl))
  | chain head tail =>
    refine hP.bind (hP.chain hP.rollApply (hterm List.mem_cons_self) ?_)
      fun _ => hP.pure _
    exact fun l hl => hterm (List.mem_cons_of_mem _ (List.mem_map_of_mem hl))
  | function fn arg => exact hP.bind (hterm List.mem_cons_self) fun _ => hP.pure _

/-- A label takes no step. -/
theorem labelled {form : Form (Rolling Result)} (label : Option String) (h : P form.roll) :
    P (form.rollLabelled label) :=
  hP.bind h fun _ => hP.pure _

/-- A mechanic rolls the dice of one kind again. It gets as far as a re-roll only
if some face of that kind ends it. -/
theorem mechanic {kind : DieType} {trigger : Condition Number} (hroll : P kind.rollFace)
    (hmiss : hitsAll trigger kind = false → ∀ d, P (rerollToMiss kind trigger d))
    (mechanic : Mechanic) (rolls : List RolledDie) : P (mechanic.apply kind trigger rolls) := by
  cases hends : hitsAll trigger kind with
  | false => exact hP.toClosed.mechanic hends hroll (hmiss hends) mechanic rolls
  | true =>
    unfold Mechanic.apply
    rw [if_pos hends]
    exact hP.refuse _ rfl

/-! ## Dice of one kind -/

/-- Modifiers of dice roll what their kind rolls, and refuse what is unknown. -/
theorem applyToDice {kind : DieType} (hkind : OfKind P kind) {m : Modifier (Rolling Result)}
    (hm : ∀ x ∈ m.operands, P x) (hknown : m.isKnown ∨ HasRefusals P) (rolls : List RolledDie) :
    P (m.applyToDice kind rolls) := by
  match m with
  | .select action extreme count =>
    exact hP.bind (hm count (by simp [Modifier.operands])) fun _ => hP.pure _
  | .test meaning condition =>
    have h := hP.resolve (hm condition.target (by simp [Modifier.operands]))
    cases meaning <;> exact hP.bind h fun _ => hP.pure _
  | .again mechanic (some trigger) =>
    exact hP.bind (hP.resolve (hm trigger.target (by simp [Modifier.operands])))
      fun trigger => hkind.again mechanic trigger rolls
  | .again mechanic none => exact hkind.again mechanic _ rolls
  | .unsupported =>
    rcases hknown with h | h
    · simp [Modifier.isKnown] at h
    · exact h _

/-- The roll of a die specification, if its parts have the property, and rolling
dice of the kinds that its sides may be resolved to. -/
theorem dice {spec : DieSpec (Rolling Result)} (hcount : ∀ requested, P (diceCount requested))
    (hsides : ∀ f : Sides Result × DieType → Rolling Result,
      (∀ sides kind, OfKind P kind → P (f (sides, kind))) → P (spec.sides.resolve >>= f))
    (hparts : ∀ x ∈ (Form.die spec).parts, P x)
    (hknown : (∀ m ∈ spec.mods ++ spec.targets, m.isKnown) ∨ HasRefusals P) : P spec.roll := by
  -- both lists of modifiers are among the parts, so one argument serves them
  have hmods {mods : List (Modifier (Rolling Result))} (hsub : mods ⊆ spec.mods ++ spec.targets)
      {kind : DieType} (hkind : OfKind P kind) (rolls : List RolledDie) :
      P (mods.foldlM (Modifier.applyToDice kind) rolls) := by
    refine hP.foldlM (fun rolls m hm => ?_) rolls
    refine hP.applyToDice hkind (fun x hx => hparts x ?_) (hknown.imp_left (· m (hsub hm))) rolls
    exact Form.mem_parts_of_mem_operands (Form.mem_operands_of_mem_modifiers (hsub hm) hx)
  have hrollDice {kind : DieType} (hkind : OfKind P kind) (n : Nat) : P (spec.rollDice kind n) := by
    refine hP.bind (hkind.rollMany n) fun rolls => ?_
    refine hP.bind (hmods (List.subset_append_left _ _) hkind rolls) fun rolls => ?_
    exact hP.bind (hmods (List.subset_append_right _ _) hkind rolls) fun rolls => hP.pure _
  -- the count, the sides, the dice, the match
  refine hP.bind (hparts _ ?_) fun count => ?_
  · simp [Form.parts, Form.terms]
  refine hP.bind (hcount _) fun n => hsides _ fun sides kind hkind => ?_
  refine hP.bind (hrollDice hkind n) fun rolls => ?_
  refine hP.conclude (fun m hm x hx => hparts x ?_) count sides rolls
  exact Form.mem_parts_of_mem_operands (Form.mem_operands_of_mem_matching? hm hx)

end OfRefusals

/-! ## Without the supply -/

/-- The computation draws nothing, and gives the same whatever it is given. -/
def Steady {α : Type} (m : Rolling α) : Prop := ∃ answer, ∀ σ n, m.answer σ n = (answer, n)

theorem steady_ofRefusals : OfRefusals (fun _ m => Steady m) where
  pure a := ⟨.ok a, fun _ _ => rfl⟩
  bind := by
    rintro _ _ m f ⟨answer, hm⟩ hf
    cases answer with
    | error halt => exact ⟨.error halt, fun σ n => by rw [answer_bind, hm]⟩
    | ok a =>
      obtain ⟨answer, ha⟩ := hf a
      refine ⟨answer, fun σ n => ?_⟩
      rw [answer_bind, hm]
      exact ha σ n
  refuse e _ := ⟨.error (.refused e), fun _ _ => rfl⟩

namespace OfSteps

variable {P : ∀ ⦃α : Type⦄, Rolling α → Prop} (hP : OfSteps P)

include hP

theorem ofKind (kind : DieType) : OfKind P kind where
  rollMany := hP.rollMany kind
  again mechanic trigger rolls :=
    hP.toOfRefusals.mechanic (hP.rollFace kind) (fun _ => hP.rerollToMiss kind trigger)
      mechanic rolls

/-! ## Layers -/

/-- The roll of a die specification, if its parts have the property. -/
theorem dice {spec : DieSpec (Rolling Result)} (hparts : ∀ x ∈ (Form.die spec).parts, P x)
    (hknown : (∀ m ∈ spec.mods ++ spec.targets, m.isKnown) ∨ HasRefusals P) : P spec.roll := by
  refine hP.toOfRefusals.dice hP.diceCount (fun f hf => ?_) hparts hknown
  refine hP.bind (hP.resolveSides fun x hx => hparts x ?_) fun resolved => ?_
  · simp [Form.parts, Form.terms, hx]
  · exact hf _ _ (hP.ofKind _)

/-- **One layer**: the roll of a form has the property if its parts have it. -/
theorem form {form : Form (Rolling Result)} (hparts : ∀ x ∈ form.parts, P x)
    (hsupported : form.Supported ∨ HasRefusals P) : P form.roll := by
  cases hform : form.isDie with
  | false => exact hP.layer hform hparts hsupported
  | true =>
    cases form with
    | die spec => exact hP.dice hparts hsupported
    | number | inline | group | sum | chain | function => cases hform

/-- **Every expression**: its roll has the property, if refusing what is
unknown has it as well. -/
theorem node (hrefuse : HasRefusals P)
    (node : Node) : P node.roll :=
  node.fold_induction
    (fun _ label hparts => hP.labelled label (hP.form hparts (.inr hrefuse)))
    (hrefuse .unsupportedNode)

end OfSteps

end Rolling

end DiceNotation
