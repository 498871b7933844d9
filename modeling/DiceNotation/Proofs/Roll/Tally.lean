import DiceNotation.Proofs.Roll.Items
import DiceNotation.Proofs.Roll.Layers
import DiceNotation.Proofs.Roll.Layout
import DiceNotation.Proofs.Roll.Pool
import DiceNotation.Proofs.Roll.Steps
import Mathlib.Algebra.Ring.Nat

/-!
# No die is lost

Every value that a roll draws ends up as one die in its result, and every die in
the result was drawn (`Node.answer_roll_tally`). Two things break the count: a
compounding die takes in what it draws, and the operands of modifiers are rolled
for their values only. So the count is for expressions without the first, and
with operands that roll no dice.

The modifiers of dice keep a balance (`Rolling.Adds`): whatever they draw, they
put on the table. All others leave the number of dice alone.
-/

namespace DiceNotation

open Counted Relation

/-! ## Counting dice -/

/-- The number of dice in a result, in its counts and sides too. -/
def Result.rollCount : Result → Nat
  | mk _ shape => shape.rolls.length + (shape.parts.attach.map fun t => t.1.rollCount).sum
termination_by r => r
decreasing_by
  have := Shape.sizeOf_lt_of_mem_parts t.2
  simp only [mk.sizeOf_spec]
  omega

/-- Dice are counted here and in all parts. -/
theorem Result.rollCount_eq (r : Result) :
    r.rollCount = r.shape.rolls.length + (r.shape.parts.map rollCount).sum := by
  obtain ⟨outcome, shape⟩ := r
  rw [rollCount, List.attach_map_val]
  rfl

namespace Result

/-- The shape decides how many dice there are. -/
theorem rollCount_congr {r s : Result} (h : r.shape = s.shape) : r.rollCount = s.rollCount := by
  rw [rollCount_eq, rollCount_eq s, h]

theorem rollCount_dice {r count : Result} {sides : Sides Result} {rolls : List RolledDie}
    {matched : Bool} (h : r.shape = .dice count sides rolls matched) :
    r.rollCount = rolls.length + (count.rollCount + (sides.parts.map rollCount).sum) := by
  rw [rollCount_eq, h]
  simp [Shape.rolls, Shape.parts]

theorem rollCount_sum (outcome : Outcome) (terms : List Result) (ops : List SumOp) :
    (mk outcome (.sum terms ops)).rollCount = (terms.map rollCount).sum := by
  rw [rollCount_eq]
  exact Nat.zero_add _

/-- A refresh puts no dice on the table. -/
@[simp] theorem rollCount_refresh (r : Result) : r.refresh.rollCount = r.rollCount := by
  induction r using sum_induction with
  | sum outcome terms ops ih =>
    rw [refresh, rollCount_sum, rollCount_sum, refreshAll_eq_map, List.map_map]
    exact congrArg List.sum (List.map_congr_left ih)
  | other outcome shape h =>
    cases shape with
    | sum terms ops => exact absurd rfl (h terms ops)
    | number | dice | chain | group | function => exact rollCount_congr (by simp [refresh, shape])

/-- As many dice are put into the pool as were in it. -/
theorem rollCount_refill (r : Result) (supply : List RolledDie)
    (h : r.pool.length ≤ supply.length) : (refill r supply).1.rollCount = r.rollCount := by
  induction r using sum_induction generalizing supply with
  | sum outcome terms ops ih =>
    rw [refill, rollCount_sum, rollCount_sum]
    rw [pool] at h
    induction terms generalizing supply with
    | nil => rfl
    | cons term rest ih' =>
      rw [poolAll, List.length_append] at h
      -- the first term takes its own dice, and leaves enough for the others
      have hterm := ih term List.mem_cons_self supply (by omega)
      have hleft : (poolAll rest).length ≤ (supply.drop term.pool.length).length := by
        rw [List.length_drop]
        omega
      have hrest := ih' (fun t ht => ih t (List.mem_cons_of_mem _ ht)) _ hleft
      rw [refillAll, List.map_cons, List.map_cons, List.sum_cons, List.sum_cons, hterm,
        (pool_refill term supply).2, hrest]
  | other outcome shape hshape =>
    cases shape with
    | sum terms ops => exact absurd rfl (hshape terms ops)
    | dice count sides rolls matched =>
      rw [pool] at h
      rw [refill, rollCount_eq, rollCount_eq]
      simp only [shape, Shape.rolls, List.length_take, Nat.min_eq_left h]
      rfl
    | number | chain | group | function => simp only [refill]

end Result

/-! ## Expressions that can be counted -/

/-- No dice anywhere in the expression. -/
inductive Node.Diceless : Node → Prop
  | term {form : Form Node} {label : Option String} :
    form.isDie = false → (∀ n ∈ form.parts, n.Diceless) → Diceless (.term form label)
  | unsupported : Diceless .unsupported

def Modifier.isCompound {ε : Type} : Modifier ε → Bool
  | .again .compound _ => true
  | _ => false

@[simp] theorem Modifier.isCompound_map {ε φ : Type} (f : ε → φ) (m : Modifier ε) :
    (m.map f).isCompound = m.isCompound := by
  rcases m with _ | _ | ⟨_ | _ | _ | _ | _, _⟩ | _ <;> rfl

/-- No modifier compounds, and what modifiers take values from rolls no dice.
Counts, sides, members and terms may hold such expressions again. -/
inductive Node.KeepsDice : Node → Prop
  | term {form : Form Node} {label : Option String} :
    (∀ m ∈ form.modifiers, m.isCompound = false) → (∀ n ∈ form.operands, n.Diceless) →
      (∀ n ∈ form.terms, n.KeepsDice) → KeepsDice (.term form label)
  | unsupported : KeepsDice .unsupported

namespace Rolling

/-! ## Drawing nothing -/

/-- The computation succeeds without a draw, if it succeeds. -/
def DrawsNothing {α : Type} (m : Rolling α) : Prop :=
  ∀ σ n a d, m.answer σ n = (.ok a, d) → d = n

theorem drawsNothing_refuse {α : Type} (e : RollError) : (refuse e : Rolling α).DrawsNothing := by
  intro σ n a d h
  cases h

theorem drawsNothing_ofRefusals : OfRefusals (fun _ m => DrawsNothing m) where
  pure a σ n a' d h := by
    cases h
    rfl
  bind hm hf σ n b d h := by
    obtain ⟨a, e, ha, hb⟩ := answer_bind_eq_ok.1 h
    rw [hf a σ e b d hb, hm σ n a e ha]
  refuse e _ := drawsNothing_refuse e

end Rolling

/-- Expressions without dice draw nothing. -/
theorem Node.Diceless.drawsNothing {n : Node} (h : n.Diceless) : n.roll.DrawsNothing := by
  induction h with
  | term hform _ ih =>
    rw [Node.roll_term]
    refine Rolling.drawsNothing_ofRefusals.labelled _ ?_
    refine Rolling.drawsNothing_ofRefusals.layer (by simpa using hform) (by simpa using ih) ?_
    exact .inr fun _ => Rolling.drawsNothing_refuse
  | unsupported =>
    rw [Node.roll_unsupported]
    exact Rolling.drawsNothing_refuse _

/-! ## Putting dice on the table -/

namespace Rolling

/-- Of `k` dice the computation makes a list of dice, and draws one value for
each that was not there. -/
def Adds (m : Rolling (List RolledDie)) (k : Nat) : Prop :=
  ∀ σ n rolls d, m.answer σ n = (.ok rolls, d) → d + k = n + rolls.length

theorem adds_pure {rolls : List RolledDie} {k : Nat} (hk : rolls.length = k) :
    Adds (pure rolls) k := by
  intro σ n rolls' d h
  cases h
  rw [hk]

/-- What draws nothing puts nothing on the table. -/
theorem DrawsNothing.adds {α : Type} {m : Rolling α} {f : α → Rolling (List RolledDie)} {k : Nat}
    (hm : m.DrawsNothing) (hf : ∀ a, (f a).Adds k) : Adds (m >>= f) k := by
  intro σ n rolls d h
  obtain ⟨a, e, ha, h⟩ := answer_bind_eq_ok.1 h
  rw [← hm σ n a e ha]
  exact hf a σ e rolls d h

/-- Afterwards the dice may be changed, but not their number. -/
theorem Adds.map {m : Rolling (List RolledDie)} {k : Nat} (h : m.Adds k)
    {f : List RolledDie → List RolledDie} (hf : ∀ rolls, (f rolls).length = rolls.length) :
    Adds (m >>= fun rolls => pure (f rolls)) k := by
  intro σ n rolls d hr
  obtain ⟨rolls', e, hm, hr⟩ := answer_bind_eq_ok.1 hr
  cases hr
  rw [hf]
  exact h σ n rolls' _ hm

/-- Dice that add one each add as many as they are. -/
theorem adds_flatMapM {f : RolledDie → Rolling (List RolledDie)} (h : ∀ d, (f d).Adds 1)
    (rolls : List RolledDie) : (rolls.flatMapM f).Adds rolls.length := by
  induction rolls with
  | nil => exact adds_pure rfl
  | cons die rolls ih =>
    intro σ n result d hr
    rw [List.flatMapM_cons] at hr
    simp only [answer_bind_eq_ok] at hr
    obtain ⟨chain, e, hchain, rest, e', hrest, hr⟩ := hr
    obtain ⟨rfl, rfl⟩ : chain ++ rest = result ∧ e' = d := by simpa using hr
    have := h die σ n chain e hchain
    have := ih σ e rest e' hrest
    simp only [List.length_append, List.length_cons]
    omega

theorem adds_rollMany (kind : DieType) (k : Nat) : Adds (kind.rollMany k) 0 := by
  intro σ n rolls d h
  rw [answer_rollMany] at h
  split at h
  · cases h
  · cases h
    simp

/-! ### Rolling again -/

section Again

variable {kind : DieType} {trigger : Condition Number}

/-- An exploding chain puts a die on the table for each draw, next to the one that was
there. -/
theorem adds_explodeChain (penalty : Int64) (fuel : Nat) (die : RolledDie) :
    Adds (explodeChain kind trigger penalty fuel die) 1 := by
  induction fuel generalizing die with
  | zero => exact adds_pure rfl
  | succ fuel ih =>
    intro σ n rolls d h
    rw [explodeChain, answer_ite] at h
    split at h
    · -- one value for the next die, and one for each that it leads to
      simp only [answer_bind_eq_ok] at h
      obtain ⟨next, e, hnext, chain, e', hchain, h⟩ := h
      obtain ⟨-, rfl, -⟩ := answer_roll_eq_ok hnext
      cases h
      have := ih _ σ _ chain _ hchain
      rw [List.length_cons]
      omega
    · cases h
      rfl

/-- Dice that were re-rolled stay on the table. -/
theorem adds_rerollChain (fuel : Nat) (before : List RolledDie) (die : RolledDie) :
    Adds (rerollChain kind trigger fuel before die) (before.length + 1) := by
  induction fuel generalizing before die with
  | zero =>
    intro σ n rolls d h
    cases h
  | succ fuel ih =>
    intro σ n rolls d h
    rw [rerollChain, answer_ite] at h
    split at h
    · -- the die goes to those before, so one more is there when the next is tested
      obtain ⟨next, e, hnext, h⟩ := answer_bind_eq_ok.1 h
      obtain ⟨-, rfl, -⟩ := answer_roll_eq_ok hnext
      have := ih _ _ σ _ rolls d h
      rw [List.length_cons] at this
      omega
    · cases h
      simp

theorem adds_rerollToMiss (die : RolledDie) : Adds (rerollToMiss kind trigger die) 1 := by
  intro σ n rolls d h
  rw [answer_rerollToMiss] at h
  exact adds_rerollChain _ [] die σ n rolls d h

theorem adds_rerollOneTime (die : RolledDie) : Adds (rerollOneTime kind trigger die) 1 := by
  intro σ n rolls d h
  rw [rerollOneTime, answer_ite] at h
  split at h
  · obtain ⟨next, e, hnext, h⟩ := answer_bind_eq_ok.1 h
    obtain ⟨-, rfl, -⟩ := answer_roll_eq_ok hnext
    cases h
    rfl
  · cases h
    rfl

/-- **Rolling again** keeps the balance, unless the new face goes into a die that
is there. -/
theorem adds_mechanic {mechanic : Mechanic} (h : mechanic ≠ .compound)
    (rolls : List RolledDie) : Adds (mechanic.apply kind trigger rolls) rolls.length := by
  intro σ n result d hr
  unfold Mechanic.apply at hr
  rw [answer_ite] at hr
  split at hr
  · cases hr
  have hnumbered (rolls : List RolledDie) : (numbered rolls).length = rolls.length := by
    simp [numbered]
  cases mechanic with
  | explode => exact (adds_flatMapM (adds_explodeChain 0 _) rolls).map hnumbered σ n result d hr
  | penetrate => exact (adds_flatMapM (adds_explodeChain 1 _) rolls).map hnumbered σ n result d hr
  | reroll => exact (adds_flatMapM adds_rerollToMiss rolls).map hnumbered σ n result d hr
  | rerollOnce => exact (adds_flatMapM adds_rerollOneTime rolls).map hnumbered σ n result d hr
  | compound => exact absurd rfl h

end Again

/-! ### All modifiers of dice -/

/-- The modifier draws for nothing but dice that it puts on the table. -/
structure KeepsBalance (m : Modifier (Rolling Result)) : Prop where
  not_compound : m.isCompound = false
  operands : ∀ x ∈ m.operands, x.DrawsNothing

/-- Modifiers that keep the balance put on the table what they draw. -/
theorem KeepsBalance.adds {m : Modifier (Rolling Result)} (hm : KeepsBalance m) (kind : DieType)
    (rolls : List RolledDie) : Adds (m.applyToDice kind rolls) rolls.length := by
  obtain ⟨hm, hoperands⟩ := hm
  match m with
  | .select action extreme count =>
    refine (hoperands count (by simp [Modifier.operands])).adds fun count => adds_pure ?_
    exact (changed_selectItems ..).length_eq.symm
  | .test meaning condition =>
    have hcondition := drawsNothing_ofRefusals.resolve
      (hoperands condition.target (by simp [Modifier.operands]))
    cases meaning with
    | success | failure => exact hcondition.adds fun c => adds_pure (by simp [convert])
    | crit | critfail => exact hcondition.adds fun c => adds_pure (by simp [markCritical])
  | .again mechanic (some trigger) =>
    have htrigger := drawsNothing_ofRefusals.resolve
      (hoperands trigger.target (by simp [Modifier.operands]))
    refine htrigger.adds fun trigger => adds_mechanic ?_ rolls
    rintro rfl
    exact absurd hm (by simp [Modifier.isCompound])
  | .again mechanic none =>
    refine adds_mechanic ?_ rolls
    rintro rfl
    exact absurd hm (by simp [Modifier.isCompound])
  | .unsupported =>
    intro σ n rolls d h
    cases h

/-- **A list of modifiers** keeps the balance from the first to the last. -/
theorem adds_foldlM {mods : List (Modifier (Rolling Result))}
    (hmods : ∀ m ∈ mods, KeepsBalance m) (kind : DieType) (rolls : List RolledDie) :
    Adds (mods.foldlM (Modifier.applyToDice kind) rolls) rolls.length := by
  intro σ n result d h
  -- the invariant: what was drawn since the first modifier lies on the table
  refine invariant_of_answer_foldlM (I := fun e table => e + rolls.length = n + table.length)
    (fun m hm table e table' e' hI hstep => ?_) rfl h
  have := (hmods m hm).adds kind table σ e table' e' hstep
  omega

/-- A specification puts on the table what it draws. -/
theorem adds_rollDice {spec : DieSpec (Rolling Result)}
    (hmods : ∀ m ∈ spec.mods ++ spec.targets, KeepsBalance m) (kind : DieType) (k : Nat) :
    Adds (spec.rollDice kind k) 0 := by
  intro σ n rolls d h
  simp only [DieSpec.rollDice, answer_bind_eq_ok] at h
  obtain ⟨rolled, e₁, hrolled, modified, e₂, hmodified, tested, e₃, htested, h⟩ := h
  cases h
  have hfirst := adds_rollMany kind k σ n rolled e₁ hrolled
  have hmechanical := adds_foldlM (fun m hm => hmods m (List.mem_append_left _ hm)) kind rolled
    σ e₁ modified e₂ hmodified
  have htargets := adds_foldlM (fun m hm => hmods m (List.mem_append_right _ hm)) kind modified
    σ e₂ tested _ htested
  have hsettled := (changed_settle spec.targets tested).length_eq
  omega

end Rolling

/-! ## Layers -/

/-- The result holds a die for every value that was drawn for it. -/
def Tallies (m : Rolling Result) : Prop :=
  ∀ σ n r d, m.answer σ n = (.ok r, d) → d = n + r.rollCount

section Layers

variable {σ : Setting} {n d : Nat}

theorem tallies_dice {spec : DieSpec (Rolling Result)} (hcount : Tallies spec.count)
    (hsides : ∀ x ∈ spec.sides.parts, Tallies x)
    (hmods : ∀ m ∈ spec.mods ++ spec.targets, Rolling.KeepsBalance m)
    (hmatching : ∀ m ∈ spec.matching, ∀ x ∈ m.operands, x.DrawsNothing) :
    Tallies spec.roll := by
  intro σ n r d h
  obtain ⟨count, e₁, hc, k, e₂, hk, sides, kind, e₃, hs, rolls, e₄, hrolls, h⟩ :=
    DieSpec.answer_roll_eq_ok.1 h
  have hcount := hcount _ _ _ _ hc
  have hk : e₂ = e₁ := by
    rw [Rolling.answer_diceCount] at hk
    exact (Prod.mk.inj hk).2.symm
  have hsides : e₃ = e₂ + (sides.parts.map Result.rollCount).sum := by
    rcases Sides.answer_resolve_eq_ok hs with ⟨-, rfl, -, rfl⟩ | ⟨roll, faces, hroll, hf, rfl, -⟩
    · rfl
    · simpa [Sides.parts] using hsides roll (by simp [hroll, Sides.parts]) _ _ _ _ hf
  -- the draws of the dice are the dice; matching them draws nothing
  have hadds := Rolling.adds_rollDice hmods kind k σ e₃ rolls e₄ hrolls
  have hconclude := Rolling.drawsNothing_ofRefusals.conclude hmatching count sides rolls _ _ _ _ h
  have hr : r.rollCount = rolls.length +
      (count.rollCount + (sides.parts.map Result.rollCount).sum) := by
    rcases DieSpec.answer_conclude_eq_ok h with ⟨-, -, rfl⟩ | ⟨m, faces, -, -, rfl⟩
    · rw [Result.rollCount_dice rfl, DieSpec.length_arrange]
    · split <;> rw [Result.rollCount_dice rfl, DieSpec.length_arrange] <;> simp [markMatched]
  omega

/-- Members are drawn one after the other. -/
theorem tallies_mapM {members : List (Rolling Result)} (h : ∀ x ∈ members, Tallies x)
    {results : List Result} (hr : (members.mapM id).answer σ n = (.ok results, d)) :
    d = n + (results.map Result.rollCount).sum := by
  induction members generalizing n results with
  | nil =>
    cases hr
    rfl
  | cons member members ih =>
    simp only [List.mapM_cons, Rolling.answer_bind_eq_ok] at hr
    obtain ⟨r, e, hmember, rest, e', hrest, hr⟩ := hr
    cases hr
    have := h member List.mem_cons_self _ _ _ _ hmember
    have := ih (fun x hx => h x (List.mem_cons_of_mem _ hx)) hrest
    rw [List.map_cons, List.sum_cons]
    omega

theorem tallies_group {members : List (Rolling Result)} {mods : List (Modifier (Rolling Result))}
    (hmembers : ∀ x ∈ members, Tallies x)
    (hmods : ∀ m ∈ mods, ∀ x ∈ m.operands, x.DrawsNothing) : Tallies (rollGroup members mods) := by
  intro σ n r d h
  obtain ⟨results, e, hresults, h⟩ := answer_rollGroup_eq_ok h
  have hdraws {α : Type} [Counted α] (items : List α) :
      (mods.foldlM Modifier.applyToItems items).DrawsNothing :=
    Rolling.drawsNothing_ofRefusals.foldlM (fun items m hm =>
      Rolling.drawsNothing_ofRefusals.applyToItems (hmods m hm)
        (.inr fun _ => Rolling.drawsNothing_refuse) items) items
  have hnumbered : (numbered results).map Result.rollCount = results.map Result.rollCount :=
    map_eq_of_forall₂ (f := Result.rollCount) (forall₂_numbered
      (fun i r => Result.rollCount_congr (Result.shape_setOrder r i)) results)
  have htally := tallies_mapM hmembers hresults
  rw [← hnumbered] at htally
  have hgroup (members : List Result) :
      (Result.group members).rollCount = (members.map Result.rollCount).sum := by
    rw [Result.rollCount_eq]
    exact Nat.zero_add _
  rcases h with ⟨member, dice, hsole, -, -, hdice, rfl⟩ | ⟨-, items, hitems, rfl⟩
  · have hlength := (changed_settle_foldlM hdice).length_eq
    rw [hdraws _ _ _ _ _ hdice, htally, hsole, hgroup]
    -- new dice took the places of the old ones
    simp [Result.rollCount_congr (Result.shape_setValue ..),
      Result.rollCount_refill _ _ (Nat.le_of_eq hlength)]
  · rw [hdraws _ _ _ _ _ hitems, htally, hgroup]
    rw [map_eq_of_forall₂ (f := Result.rollCount) ((changed_settle_foldlM hitems).imp
      fun _ _ h => Result.rollCount_congr h.shape_eq)]

section Chains

variable {ω : Type} {apply : ω → Number → Number → Rolling Number} {order : Nat}
  {value total : Number} {terms : List Result} {tail : List (Link ω (Rolling Result))}

/-- Terms draw for their own dice, as operators draw nothing. -/
theorem tallies_rollLinks (happly : ∀ op x y, (apply op x y).DrawsNothing)
    (htail : ∀ l ∈ tail, Tallies l.term)
    (h : (rollLinks apply order value tail).answer σ n = (.ok (total, terms), d)) :
    d = n + (terms.map Result.rollCount).sum := by
  induction tail generalizing order value n terms with
  | nil =>
    cases h
    rfl
  | cons link tail ih =>
    obtain ⟨r, e₁, hr, v, e₂, hv, rest, hrest, rfl⟩ := answer_rollLinks_cons h
    have hr := htail link List.mem_cons_self _ _ _ _ hr
    have hv := happly _ _ _ _ _ _ _ hv
    have hrest := ih (fun l hl => htail l (List.mem_cons_of_mem _ hl)) hrest
    rw [List.map_cons, List.sum_cons, Result.rollCount_congr (Result.shape_setOrder r order)]
    omega

theorem tallies_chain (happly : ∀ op x y, (apply op x y).DrawsNothing) {head : Rolling Result}
    (hhead : Tallies head) (htail : ∀ l ∈ tail, Tallies l.term)
    (h : (rollChain apply head tail).answer σ n = (.ok (total, terms), d)) :
    d = n + (terms.map Result.rollCount).sum := by
  obtain ⟨first, e, rest, hfirst, hrest, rfl⟩ := answer_rollChain_eq_ok h
  have hfirst := hhead _ _ _ _ hfirst
  have hrest := tallies_rollLinks happly htail hrest
  rw [List.map_cons, List.sum_cons]
  omega

end Chains

/-- **One layer** draws what it holds if its terms do, if nothing compounds and
if its operands draw nothing. -/
theorem tallies_form {form : Form (Rolling Result)}
    (hmods : ∀ m ∈ form.modifiers, m.isCompound = false)
    (hoperands : ∀ x ∈ form.operands, x.DrawsNothing) (hterms : ∀ x ∈ form.terms, Tallies x) :
    Tallies form.roll := by
  have hmod {m : Modifier (Rolling Result)} (hm : m ∈ form.modifiers) :
      ∀ x ∈ m.operands, x.DrawsNothing :=
    fun x hx => hoperands x (Form.mem_operands_of_mem_modifiers hm hx)
  cases form with
  | number value =>
    intro σ n r d h
    cases h
    rw [Result.rollCount_eq]
    rfl
  | inline expr => exact hterms expr List.mem_cons_self
  | die spec =>
    refine tallies_dice (hterms _ List.mem_cons_self)
      (fun x hx => hterms x (List.mem_cons_of_mem _ hx)) (fun m hm => ⟨hmods m hm, hmod hm⟩)
      fun m hm x hx => hoperands x (Form.mem_operands_of_mem_matching? hm hx)
  | group first rest mods => exact tallies_group hterms fun m hm => hmod hm
  | sum head tail =>
    intro σ n r d h
    obtain ⟨⟨total, terms⟩, e, hchain, h⟩ := Rolling.answer_bind_eq_ok.1 h
    cases h
    rw [Result.sum, Result.rollCount_sum]
    refine tallies_chain (fun op x y => Rolling.drawsNothing_ofRefusals.pure _)
      (hterms _ List.mem_cons_self) (fun l hl => ?_) hchain
    exact hterms _ (List.mem_cons_of_mem _ (List.mem_map_of_mem hl))
  | chain head tail =>
    intro σ n r d h
    obtain ⟨⟨total, terms⟩, e, hchain, h⟩ := Rolling.answer_bind_eq_ok.1 h
    cases h
    rw [Result.rollCount_eq]
    rw [tallies_chain (fun op x y => Rolling.drawsNothing_ofRefusals.rollApply op x y)
      (hterms _ List.mem_cons_self)
      (fun l hl => hterms _ (List.mem_cons_of_mem _ (List.mem_map_of_mem hl))) hchain]
    simp [Result.chain, Result.shape, Shape.rolls, Shape.parts]
  | function fn arg =>
    intro σ n r d h
    obtain ⟨a, e, ha, h⟩ := Rolling.answer_bind_eq_ok.1 h
    cases h
    rw [Result.rollCount_eq, hterms arg List.mem_cons_self _ _ _ _ ha]
    simp [Result.function, Result.shape, Shape.rolls, Shape.parts]

end Layers

/-! ## Expressions -/

/-- Expressions that keep their dice draw as many as they show. -/
theorem Node.KeepsDice.tallies {node : Node} (h : node.KeepsDice) : Tallies node.roll := by
  induction h with
  | @term form label hmods hoperands _ ih =>
    rw [Node.roll_term]
    intro σ n r d hr
    obtain ⟨bare, hbare, rfl⟩ := Form.answer_rollLabelled_eq_ok hr
    rw [Result.rollCount_congr (Result.shape_relabel label bare)]
    refine tallies_form ?_ ?_ ?_ _ _ _ _ hbare
    · simpa using hmods
    · simpa using fun n hn => (hoperands n hn).drawsNothing
    · simpa using ih
  | unsupported =>
    rw [Node.roll_unsupported]
    intro σ n r d h
    cases h

/-- **No die is lost and none is invented.** Without compounding, and with
operands of modifiers that roll no dice, a roll that succeeds has drawn exactly
as many values as there are dice in its result, those of counts and sides
included, whatever exploded, was rolled again, dropped, sorted or matched, and
whatever groups did to the dice of their members. -/
theorem Node.answer_roll_tally {node : Node} (h : node.KeepsDice) {σ : Setting} {n d : Nat}
    {r : Result} (hr : node.roll.answer σ n = (.ok r, d)) : d = n + r.rollCount :=
  h.tallies σ n r d hr

theorem Node.diceless_int (value : Int64) : (int value).Diceless :=
  .term rfl (by simp)

theorem Node.keepsDice_int (value : Int64) : (int value).KeepsDice :=
  .term (by simp [Form.modifiers]) (by simp [Form.operands, Form.modifiers, Form.matching?])
    (by simp [Form.terms])

/-- A die says how many dice there are, one of them explodes, and one is kept:
four values, four dice. -/
theorem Node.answer_roll_tally_nested :
    let count : Node := .term (.die { sides := .numeric (.int 2), count := .int 1 }) none
    let dice : Node := .term (.die {
      sides := .numeric (.int 6), count := count,
      mods := [.again .explode none, .select .keep none (.int 1)] }) none
    let tenths (k : Nat) : Double := .ofRatio false k 10
    ∃ r, dice.roll.answer ⟨.ofList [tenths 9, tenths 9, tenths 1, tenths 3], 1000⟩ 0 =
      (.ok r, 4) ∧ r.rollCount = 4 := by
  intro count dice tenths
  have hcount : count.KeepsDice := by
    refine .term (by simp [Form.modifiers])
      (by simp [Form.operands, Form.modifiers, Form.matching?]) ?_
    simpa [Form.terms, Sides.parts] using ⟨keepsDice_int 1, keepsDice_int 2⟩
  have hdice : dice.KeepsDice := by
    refine .term (by simp [Form.modifiers, Modifier.isCompound]) ?_ ?_
    · simpa [Form.operands, Form.modifiers, Form.matching?, Modifier.operands] using diceless_int 1
    · simpa [Form.terms, Sides.parts] using ⟨hcount, keepsDice_int 6⟩
  obtain ⟨r, hr⟩ : ∃ r, dice.roll.answer
      ⟨.ofList [tenths 9, tenths 9, tenths 1, tenths 3], 1000⟩ 0 = (.ok r, 4) :=
    Rolling.exists_answer_eq_ok (by decide +kernel)
  exact ⟨r, hr, by simpa using (Node.answer_roll_tally hdice hr).symm⟩

end DiceNotation
