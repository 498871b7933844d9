import DiceNotation.Proofs.Double.Sign
import DiceNotation.Proofs.Roll.Layers
import DiceNotation.Proofs.Roll.Steps
import DiceNotation.Roll.Generator

/-!
# Dice with one face

`Rolling.RollsOnly` says of one run of a computation that every die it rolls is of
a kind in a box. The run is the one on an endless sequence of values, so it does
not depend on where a supply would have ended.

A die with one face shows a one, whatever value it is rolled with, unless the value
is below zero. So a run that rolls only such dice is the same on all values
(`Rolling.RollsOnly.unchanging`): it ends, after as many draws, with the same result
or error, wherever in a supply it begins.
-/

namespace DiceNotation

/-! ## The face -/

/-- **A die with one face** shows it, whatever random value it is rolled with. -/
theorem numericFace_one {random : Double} (h : Double.zero.le random) :
    numericFace 1 random = 1 := by
  rcases Double.isNegative_or_eq_of_zero_le h with hpos | rfl
  · have hproduct := Double.isNegative_mul hpos (Double.isNegative_ofInt 1)
    have hnonneg := Number.toInt_clampToInt64_nonneg hproduct
    change min (Number.clampToInt64 Double.floor (random * Double.ofInt 1)) 0 + 1 = 1
    generalize Number.clampToInt64 Double.floor (random * Double.ofInt 1) = face at hnonneg
    have hmin : min face 0 = 0 := by
      change (if face ≤ 0 then face else 0) = 0
      split
      next hle => exact Int64.toInt_inj.1 (Int.le_antisymm (Int64.le_iff_toInt_le.1 hle) hnonneg)
      next => rfl
    rw [hmin]
    rfl
  · decide +kernel

namespace Supply

/-- No value is below zero. Those of a generator are below one besides, which
makes no difference to a die with one face. -/
def Nonnegative (s : Supply) : Prop := ∀ i, Double.zero.le (s.value i)

/-- Generated values are not negative. -/
theorem nonnegative_generated (seed : UInt64) (limit : Nat) :
    (generated seed limit).Nonnegative :=
  fun _ => Double.zero_le_ofRatio ..

end Supply

namespace Rolling

variable {α β : Type} {values : Nat → Double} {ceiling : UInt64} {box : DieType → Prop}

/-! ## What is rolled -/

/-- With enough of the values, the computation ends with the answer, and `d` of
them are drawn by then. -/
def EndsWith (m : Rolling α) (values : Nat → Double) (ceiling : UInt64) (n : Nat)
    (answer : Except Halt α) (d : Nat) : Prop :=
  answer ≠ .error .unfinished ∧ ∃ limit, m.answer ⟨⟨values, limit⟩, ceiling⟩ n = (answer, d)

/-- Every die that the computation rolls, after `n` draws of the values, is of a
kind in the box. Dice are rolled by a specification and by a mechanic that rolls
dice of a specification again; rolling none of a kind is not rolling it. -/
inductive RollsOnly (box : DieType → Prop) (values : Nat → Double) (ceiling : UInt64) :
    ∀ {α : Type}, Rolling α → Nat → Prop
  | pure {α : Type} (a : α) (n : Nat) : RollsOnly box values ceiling (pure a : Rolling α) n
  | refuse {α : Type} (error : RollError) (n : Nat) :
    RollsOnly box values ceiling (refuse error : Rolling α) n
  | diceCount (requested : Number) (n : Nat) :
    RollsOnly box values ceiling (diceCount requested) n
  | rollMany {kind : DieType} {k : Nat} (h : k = 0 ∨ box kind) (n : Nat) :
    RollsOnly box values ceiling (kind.rollMany k) n
  | again {kind : DieType} {rolls : List RolledDie} (h : rolls = [] ∨ box kind)
    (mechanic : Mechanic) (trigger : Condition Number) (n : Nat) :
    RollsOnly box values ceiling (mechanic.apply kind trigger rolls) n
  | bind {α β : Type} {m : Rolling α} {f : α → Rolling β} {n : Nat} :
    RollsOnly box values ceiling m n →
    (∀ a d, m.EndsWith values ceiling n (.ok a) d → RollsOnly box values ceiling (f a) d) →
    RollsOnly box values ceiling (m >>= f) n

theorem rollsOnly_ofRefusals :
    OfRefusals (fun _ m => ∀ n, m.RollsOnly box values ceiling n) where
  pure := .pure
  bind hm hf n := .bind (hm n) fun a d _ => hf a d
  refuse e _ := .refuse e

theorem rollsOnly_ofKind {kind : DieType} (h : box kind) :
    OfKind (fun _ m => ∀ n, m.RollsOnly box values ceiling n) kind where
  rollMany _ := .rollMany (.inr h)
  again mechanic trigger _ := .again (.inr h) mechanic trigger

/-- The dice of a specification, if its parts roll only dice of kinds in the box
and its sides make a kind that is in it. -/
theorem RollsOnly.dice {spec : DieSpec (Rolling Result)}
    (hparts : ∀ x ∈ (Form.die spec).parts, ∀ n, x.RollsOnly box values ceiling n)
    (hsides : ∀ n sides kind d,
      spec.sides.resolve.EndsWith values ceiling n (.ok (sides, kind)) d → box kind) (n : Nat) :
    spec.roll.RollsOnly box values ceiling n := by
  have hP : OfRefusals (fun _ m => ∀ n, m.RollsOnly box values ceiling n) := rollsOnly_ofRefusals
  refine hP.dice .diceCount (fun f hf n => ?_) hparts (.inr fun _ => .refuse) n
  refine .bind (hP.resolveSides (fun x hx => hparts x ?_) n) fun resolved d hends => ?_
  · simp [Form.parts, Form.terms, hx]
  · exact hf _ _ (rollsOnly_ofKind (hsides n _ _ d hends)) d

/-- **One layer** rolls only dice of kinds in the box if its parts do, and if its
own dice are of such a kind. -/
theorem RollsOnly.form {form : Form (Rolling Result)}
    (hparts : ∀ x ∈ form.parts, ∀ n, x.RollsOnly box values ceiling n)
    (hsides : ∀ spec, form = .die spec → ∀ n sides kind d,
      spec.sides.resolve.EndsWith values ceiling n (.ok (sides, kind)) d → box kind) (n : Nat) :
    form.roll.RollsOnly box values ceiling n := by
  cases hform : form.isDie with
  | false => exact rollsOnly_ofRefusals.layer hform hparts (.inr fun _ => .refuse) n
  | true =>
    cases form with
    | die spec => exact .dice hparts (hsides spec rfl) n
    | number | inline | group | sum | chain | function => cases hform

/-! ## Runs that are the same on all values -/

/-- The computation ends with the answer, `k` draws further, wherever a supply
without a value below zero has so many left. -/
def AlwaysEnds (m : Rolling α) (ceiling : UInt64) (answer : Except Halt α) (k : Nat) : Prop :=
  answer ≠ .error .unfinished ∧ ∀ (s : Supply) (n : Nat), s.Nonnegative → n + k ≤ s.limit →
    m.answer ⟨s, ceiling⟩ n = (answer, n + k)

/-- One run after the other ends with the draws of both. -/
theorem AlwaysEnds.bind {m : Rolling α} {f : α → Rolling β} {a : α} {answer : Except Halt β}
    {k l : Nat} (hm : m.AlwaysEnds ceiling (.ok a) k) (hf : (f a).AlwaysEnds ceiling answer l) :
    (m >>= f).AlwaysEnds ceiling answer (k + l) := by
  refine ⟨hf.1, fun s n hs hn => ?_⟩
  rw [answer_bind, hm.2 s n hs (by omega)]
  dsimp only
  rw [hf.2 s (n + k) hs (by omega), Nat.add_assoc]

/-- A halt ends the sequence. -/
theorem AlwaysEnds.bind_error {m : Rolling α} {halt : Halt} {k : Nat}
    (hm : m.AlwaysEnds ceiling (.error halt) k) (f : α → Rolling β) :
    (m >>= f).AlwaysEnds ceiling (.error halt) k := by
  refine ⟨by simpa using hm.1, fun s n hs hn => ?_⟩
  rw [answer_bind, hm.2 s n hs hn]

/-- The same ending for all values. -/
def Unchanging (ceiling : UInt64) (m : Rolling α) : Prop :=
  ∃ answer k, m.AlwaysEnds ceiling answer k

/-- What draws nothing and knows the ceiling at most. -/
theorem unchanging_of_answer {m : Rolling α} (answer : Except Halt α)
    (hend : answer ≠ .error .unfinished) (h : ∀ s n, m.answer ⟨s, ceiling⟩ n = (answer, n)) :
    m.Unchanging ceiling :=
  ⟨answer, 0, hend, fun s n _ _ => h s n⟩

theorem unchanging_refuse (error : RollError) : (refuse error : Rolling α).Unchanging ceiling :=
  unchanging_of_answer (.error (.refused error)) (by simp) fun _ _ => rfl

theorem unchanging_diceCount (requested : Number) : (diceCount requested).Unchanging ceiling := by
  by_cases h : requested.above (.int ceiling.toInt64)
  · exact unchanging_of_answer (.error (.refused (.limitExceeded requested ceiling)))
      (by simp) fun s n => by rw [answer_diceCount, if_pos h]
  · exact unchanging_of_answer (.ok (requested.toCount maxCount))
      (by simp) fun s n => by rw [answer_diceCount, if_neg h]

theorem unchanging_ofRefusals : OfRefusals (fun _ m => m.Unchanging ceiling) where
  pure a := unchanging_of_answer (.ok a) (by simp) fun _ _ => rfl
  bind := by
    rintro _ _ m f ⟨answer, k, hm⟩ hf
    cases answer with
    | error halt => exact ⟨.error halt, k, hm.bind_error f⟩
    | ok a =>
      obtain ⟨answer, l, ha⟩ := hf a
      exact ⟨answer, k + l, hm.bind ha⟩
  refuse error _ := unchanging_refuse error

/-! ## Dice with one face -/

/-- With one face there is nothing to choose. -/
theorem face_one {s : Supply} (hs : s.Nonnegative) (n : Nat) :
    DieType.face (.numeric 1) (s.value n) = 1 :=
  numericFace_one (hs n)

theorem unchanging_rollFace : (DieType.rollFace (.numeric 1)).Unchanging ceiling := by
  refine ⟨.ok 1, 1, by simp, fun s n hs hn => ?_⟩
  rw [answer_rollFace, if_pos (by exact hn), face_one hs]

/-- Dice with one face are rolled alike on all values. -/
theorem unchanging_rollMany (k : Nat) :
    (DieType.rollMany (.numeric 1) k).Unchanging ceiling := by
  refine ⟨.ok ((List.range k).map (.ofRoll (.numeric 1) 1)), k, by simp, fun s n hs hn => ?_⟩
  rw [answer_rollMany, if_neg (by dsimp only; omega)]
  simp only [face_one hs]

/-- A die that is rolled again shows the face that misses the trigger, so no
re-roll goes further than one draw. -/
theorem unchanging_rerollToMiss {trigger : Condition Number}
    (hmiss : hitsAll trigger (.numeric 1) = false) (d : RolledDie) :
    (rerollToMiss (.numeric 1) trigger d).Unchanging ceiling := by
  let next : RolledDie := .ofRoll (.numeric 1) 1 0
  have hnext : ¬ hits trigger next.roll := by
    change ¬ hits trigger 1
    simpa [hitsAll, DieType.min, DieType.max] using hmiss
  by_cases hd : hits trigger d.roll
  · refine ⟨.ok [d.replaced, next], 1, by simp, fun s n hs hn => ?_⟩
    obtain ⟨fuel, hfuel⟩ : ∃ fuel, s.limit - n = fuel + 1 := ⟨s.limit - n - 1, by omega⟩
    rw [answer_rerollToMiss, hfuel, rerollChain, answer_ite, if_pos hd, answer_bind, answer_roll,
      if_pos (by exact hn), face_one hs]
    dsimp only
    rw [rerollChain, answer_ite, if_neg hnext]
    rfl
  · refine unchanging_of_answer (.ok [d]) (by simp) fun s n => ?_
    rw [answer_rerollToMiss, rerollChain, answer_ite, if_neg hd]
    rfl

theorem unchanging_ofKind : OfKind (fun _ m => m.Unchanging ceiling) (.numeric 1) where
  rollMany := unchanging_rollMany
  again mechanic _ := unchanging_ofRefusals.mechanic unchanging_rollFace unchanging_rerollToMiss
    mechanic

/-- Without dice there is nothing to roll again. -/
theorem unchanging_apply_nil (mechanic : Mechanic) (kind : DieType) (trigger : Condition Number) :
    (mechanic.apply kind trigger []).Unchanging ceiling := by
  unfold Mechanic.apply
  split
  · exact unchanging_refuse _
  · cases mechanic <;> exact unchanging_ofRefusals.pure []

/-- **A run that rolls only dice with one face** is the same on all values: it
ends, with one result or error and after one number of draws. -/
theorem RollsOnly.unchanging {m : Rolling α} {n : Nat}
    (h : m.RollsOnly (· = .numeric 1) values ceiling n)
    (hvalues : ∀ i, Double.zero.le (values i)) : m.Unchanging ceiling := by
  induction h with
  | pure a => exact unchanging_ofRefusals.pure a
  | refuse error => exact unchanging_refuse error
  | diceCount requested => exact unchanging_diceCount requested
  | rollMany h =>
    rcases h with rfl | rfl
    · exact unchanging_of_answer (.ok []) (by simp) fun s n => answer_rollMany ..
    · exact unchanging_rollMany _
  | again h mechanic trigger =>
    rcases h with rfl | rfl
    · exact unchanging_apply_nil mechanic _ trigger
    · exact unchanging_ofKind.again mechanic trigger _
  | @bind _ _ m f n _ _ ihm ihf =>
    obtain ⟨answer, k, hm⟩ := ihm
    cases answer with
    | error halt => exact ⟨.error halt, k, hm.bind_error f⟩
    | ok a =>
      -- the values go on far enough for the first step, so the second is known
      have hends : m.EndsWith values ceiling n (.ok a) (n + k) :=
        ⟨by simp, n + k, hm.2 ⟨values, n + k⟩ n hvalues le_rfl⟩
      obtain ⟨answer, l, ha⟩ := ihf a _ hends
      exact ⟨answer, k + l, hm.bind ha⟩

end Rolling

/-! ## Expressions -/

/-- The kind that the sides of a die are written for: a fate die, or a number. -/
def Sides.kind? : Sides Node → Option DieType
  | .fate => some .fate
  | .numeric (.term (.number value) _) => some (.numeric value.toInt64)
  | .numeric _ => none

/-- Sides that are written for a kind are resolved to it. -/
theorem Sides.kind_eq_of_resolve {sides : Sides Node} {kind resolved : DieType}
    {result : Sides Result} {values : Nat → Double} {ceiling : UInt64} {n d : Nat}
    (hkind : sides.kind? = some kind)
    (hends : (sides.map Node.roll).resolve.EndsWith values ceiling n (.ok (result, resolved)) d) :
    resolved = kind := by
  obtain ⟨limit, hresolve⟩ := hends.2
  have hresolved := Sides.answer_resolve_eq_ok hresolve
  unfold Sides.kind? at hkind
  split at hkind
  next =>
    obtain rfl := Option.some.inj hkind
    rcases hresolved with ⟨-, -, hfate, -⟩ | ⟨_, _, hnumeric, -⟩
    · exact hfate
    · cases hnumeric
  next value label =>
    obtain rfl := Option.some.inj hkind
    rcases hresolved with ⟨hfate, -⟩ | ⟨roll, faces, hnumeric, hroll, -, hfaces, -⟩
    · cases hfate
    · have hnumber : roll = pure ((Result.number value).relabel label) := by
        rw [← Sides.numeric.inj hnumeric, Node.roll_term]
        rfl
      rw [hnumber, Rolling.answer_pure] at hroll
      cases hroll
      rw [hfaces, Result.value_relabel]
      rfl
  next => cases hkind

namespace Node

/-- All dice of the expression are written with sides of kinds in the box, at
every depth. -/
inductive DiceIn (box : DieType → Prop) : Node → Prop
  | term {form : Form Node} {label : Option String} :
    (∀ spec, form = .die spec → ∃ kind, spec.sides.kind? = some kind ∧ box kind) →
    (∀ n ∈ form.parts, n.DiceIn box) → DiceIn box (.term form label)
  | unsupported : DiceIn box .unsupported

variable {values : Nat → Double} {ceiling : UInt64} {box : DieType → Prop}

theorem DiceIn.number (value : Number) : (Node.number value).DiceIn box :=
  .term (by simp) (by simp)

/-- **Dice of the written kinds** are all that is rolled for an expression, however
its counts and modifiers come out. -/
theorem DiceIn.rollsOnly {node : Node} (h : node.DiceIn box) (n : Nat) :
    node.roll.RollsOnly box values ceiling n := by
  induction h generalizing n with
  | unsupported => exact .refuse _ n
  | @term form label hdice hparts ih =>
    rw [Node.roll_term]
    refine Rolling.rollsOnly_ofRefusals.labelled label (fun n => ?_) n
    refine .form (by simpa using ih) (fun spec hspec n sides resolved d hends => ?_) n
    cases form with
    | die written =>
      cases hspec
      obtain ⟨kind, hkind, hbox⟩ := hdice written rfl
      exact Sides.kind_eq_of_resolve hkind hends ▸ hbox
    | number | inline | group | sum | chain | function => cases hspec

end Node

end DiceNotation
