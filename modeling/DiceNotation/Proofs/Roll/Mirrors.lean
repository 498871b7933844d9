import DiceNotation.Proofs.Roll.Items
import DiceNotation.Proofs.Roll.Layers
import DiceNotation.Proofs.Roll.Pool

/-!
# Results that mirror expressions

A result has the layers of the expression that it is rolled for: dice where there is a
specification, members where there is a group, and as many of them (`Node.MirroredBy`).
An inline roll makes no layer. So what a specification says of its own dice is said of
dice at one place of the result, however deep they lie; and since a group changes the
dice of its member one by one and where they lie, whatever such changes keep holds of
them to the end (`Node.givesAt_mirroredBy`).
-/

namespace DiceNotation

open Counted

variable {ε : Type}

/-- The layer of a result that a form makes, if `P` says what dice a specification
makes. An inline roll makes none. -/
def Form.Makes (P : DieSpec ε → Result → Sides Result → List RolledDie → Prop) :
    Form ε → Shape Result → Prop
  | .number _, .number => True
  | .die spec, .dice count sides rolls _ => P spec count sides rolls
  | .group .., .group _ => True
  | .sum _ tail, .sum _ ops => ops = tail.map Link.op
  | .chain _ tail, .chain _ ops => ops = tail.map Link.op
  | .function fn _, .function fn' _ => fn' = fn
  | _, _ => False

/-- What is made of a form is made of it by a weaker law. -/
theorem Form.Makes.imp {P P' : DieSpec ε → Result → Sides Result → List RolledDie → Prop}
    {form : Form ε} {shape : Shape Result} (h : form.Makes P shape)
    (hP : ∀ spec, form = .die spec → ∀ count sides rolls, P spec count sides rolls →
      P' spec count sides rolls) : form.Makes P' shape := by
  cases form with
  | die spec =>
    cases shape with
    | dice count sides rolls matched => exact hP spec rfl count sides rolls h
    | number | sum | chain | group | function => exact h
  | number | inline | group | sum | chain | function => cases shape <;> exact h

/-- The result has the layers of the expression, and all dice in it are such as `P` says
for their specification. -/
inductive Node.MirroredBy (P : DieSpec Node → Result → Sides Result → List RolledDie → Prop) :
    Node → Result → Prop
  | inline {expr : Node} {label : Option String} {r : Result} :
    expr.MirroredBy P r → MirroredBy P (.term (.inline expr) label) r
  | layer {form : Form Node} {label : Option String} {r : Result} :
    form.Makes P r.shape → form.terms.length = r.shape.parts.length →
      (∀ p ∈ form.terms.zip r.shape.parts, p.1.MirroredBy P p.2) →
      MirroredBy P (.term form label) r

variable {P : DieSpec Node → Result → Sides Result → List RolledDie → Prop}
  {σ : Setting} {node : Node} {label : Option String} {r r' : Result}

namespace Node.MirroredBy

/-- Only the shape matters. -/
theorem congr (h : node.MirroredBy P r) (hshape : r'.shape = r.shape) : node.MirroredBy P r' := by
  induction h with
  | inline _ ih => exact .inline (ih hshape)
  | layer hmakes hlength hparts =>
    exact .layer (hshape ▸ hmakes) (hshape ▸ hlength) (hshape ▸ hparts)

/-- A result of the form with a result for each part mirrors it. -/
theorem of_forall₂ {form : Form Node} (hmakes : form.Makes P r.shape)
    (hparts : List.Forall₂ (MirroredBy P) form.terms r.shape.parts) :
    MirroredBy P (.term form label) r :=
  .layer hmakes hparts.length_eq fun _ hp => (List.forall₂_iff_zip.1 hparts).2 hp

/-- What mirrors an expression does so after a change. -/
theorem changed (hr : Changed r r') (h : node.MirroredBy P r) : node.MirroredBy P r' :=
  h.congr hr.shape_eq

/-- What the pool of the result holds, replaced die by die. -/
theorem refill_refresh
    (hP : ∀ spec count sides rolls rolls', List.Forall₂ Changed rolls rolls' →
      P spec count sides rolls → P spec count sides rolls')
    (h : node.MirroredBy P r) {supply : List RolledDie}
    (hsupply : List.Forall₂ Changed r.pool (supply.take r.pool.length)) :
    node.MirroredBy P (r.refill supply).1.refresh := by
  induction h generalizing supply with
  | inline _ ih => exact .inline (ih hsupply)
  | @layer form label r hmakes hlength hparts ih =>
    obtain ⟨outcome, shape⟩ := r
    cases shape with
    | sum terms ops =>
      rw [Result.pool] at hsupply
      rw [Result.refill, Result.refresh, Result.refreshAll_eq_map]
      have hterms := List.forall₂_iff_zip.2 ⟨hlength, @fun a b hp => @ih (a, b) hp⟩
      refine .of_forall₂ ?_ (List.forall₂_map_right_iff.2 ?_)
      · cases form <;> exact hmakes
      · refine forall₂_comp ?_ hterms (Result.forall₂_refillAll_related hsupply)
        rintro node term term' hterm ⟨s, hs, rfl⟩
        exact hterm hs
    | dice count sides rolls matched =>
      rw [Result.pool] at hsupply
      rw [Result.refill, Result.refresh]
      cases form with
      | die spec => exact .layer (hP _ _ _ _ _ hsupply hmakes) hlength hparts
      | number | inline | sum | group | chain | function => cases hmakes
    | number | chain | group | function => exact .layer hmakes hlength hparts

end Node.MirroredBy

/-! ## Layers -/

section Layers

variable {spec : DieSpec Node} {first : Node} {rest : List Node}

/-- The sides that are resolved mirror those that are written. -/
theorem Sides.givesAt_resolve {sides : Sides Node} {R : Node → Result → Prop}
    (h : ∀ x ∈ sides.parts, x.roll.GivesAt σ (R x)) :
    (sides.map Node.roll).resolve.GivesAt σ fun p => List.Forall₂ R sides.parts p.1.parts := by
  rintro n ⟨resolved, kind⟩ d hresolve
  cases sides with
  | fate =>
    rcases answer_resolve_eq_ok hresolve with ⟨-, rfl, -⟩ | ⟨_, _, hnumeric, -⟩
    · exact .nil
    · cases hnumeric
  | numeric faces =>
    rcases answer_resolve_eq_ok hresolve with ⟨hfate, -⟩ | ⟨_, result, hroll, hresult, rfl, -⟩
    · cases hfate
    · cases hroll
      exact .cons (h faces List.mem_cons_self n result d hresult) .nil

/-- What the modifiers of a group make of its members, each of which goes with the one
that is written. -/
theorem givesAt_rollGroup
    (hP : ∀ spec count sides rolls rolls', List.Forall₂ Changed rolls rolls' →
      P spec count sides rolls → P spec count sides rolls')
    (h : ∀ x ∈ first :: rest, x.roll.GivesAt σ (x.MirroredBy P)) (mods : List (Modifier Node)) :
    (rollGroup ((first :: rest).map Node.roll) (mods.map (Modifier.map Node.roll))).GivesAt σ
      ((Node.term (.group first rest mods) label).MirroredBy P) := by
  intro n r d hr
  obtain ⟨results, e, hresults, hr⟩ := answer_rollGroup_eq_ok hr
  rw [List.mapM_map] at hresults
  have hmembers : List.Forall₂ (Node.MirroredBy P) (first :: rest) (numbered results) :=
    forall₂_mapIdx_right (fun _ _ _ hm => hm.congr (Result.shape_setOrder ..))
      (Rolling.GivesAt.forall₂_mapM h n results e hresults)
  rcases hr with ⟨member, dice, hsole, -, -, hdice, rfl⟩ | ⟨-, items, hitems, rfl⟩
  · -- the dice of the pool were changed, and the member was given their sum
    have hchanged := changed_settle_foldlM hdice
    rw [hsole] at hmembers
    obtain ⟨hmember, hrest⟩ := List.forall₂_cons.1 hmembers
    have htaken : List.Forall₂ Changed member.pool
        ((settle (mods.map (Modifier.map Node.roll)) dice).take member.pool.length) := by
      rwa [hchanged.length_eq, List.take_length]
    have hrefilled := hmember.refill_refresh hP htaken
    exact .of_forall₂ trivial (.cons (hrefilled.congr (Result.shape_setValue ..)) hrest)
  · refine .of_forall₂ trivial (forall₂_comp ?_ hmembers (changed_settle_foldlM hitems))
    exact fun _ _ _ hm hchanged => hm.changed hchanged

end Layers

/-! ## Expressions -/

/-- **A result mirrors its expression**: dice that are as `P` says when they are rolled
for their specification are so in the end, wherever they lie, if `P` minds no change
that a group makes. -/
theorem Node.givesAt_mirroredBy
    (hrolled : ∀ {spec : DieSpec Node} {n : Nat} {r : Result} {d : Nat} {count : Result}
      {sides : Sides Result} {rolls : List RolledDie} {matched : Bool},
      (spec.map Node.roll).roll.answer σ n = (.ok r, d) →
        r.shape = .dice count sides rolls matched → P spec count sides rolls)
    (hP : ∀ spec count sides rolls rolls', List.Forall₂ Changed rolls rolls' →
      P spec count sides rolls → P spec count sides rolls')
    (node : Node) : node.roll.GivesAt σ (node.MirroredBy P) := by
  induction node using Node.induction with
  | unsupported =>
    rw [Node.roll_unsupported]
    exact Rolling.givesAt_throw _ _
  | term form label ih =>
    have hterm {x : Node} (hx : x ∈ form.terms) : x.roll.GivesAt σ (x.MirroredBy P) :=
      ih x (Form.mem_parts_of_mem_terms hx)
    have horder {x : Node} {r : Result} (h : x.MirroredBy P r) (order : Nat) :
        x.MirroredBy P (setOrder order r) := h.congr (Result.shape_setOrder r order)
    rw [Node.roll_term]
    intro n r d h
    obtain ⟨bare, hbare, rfl⟩ := Form.answer_rollLabelled_eq_ok h
    refine MirroredBy.congr ?_ (Result.shape_relabel label bare)
    cases form with
    | number value =>
      cases hbare
      exact .of_forall₂ trivial .nil
    | inline expr => exact .inline (hterm List.mem_cons_self n bare d hbare)
    | die spec =>
      obtain ⟨count, e₁, hcount, k, e₂, -, sides, kind, e₃, hsides, rolls, e₄, -, hconclude⟩ :=
        DieSpec.answer_roll_eq_ok.1 hbare
      -- what is concluded has the count and the sides that were rolled for it
      obtain ⟨faces, matched, hshape⟩ := DieSpec.exists_shape_of_answer_conclude hconclude
      have hcount := hterm List.mem_cons_self n count e₁ hcount
      have hsides :=
        Sides.givesAt_resolve (fun x hx => hterm (List.mem_cons_of_mem _ hx)) _ _ _ hsides
      refine .of_forall₂ ?_ ?_ <;> rw [hshape]
      · exact hrolled hbare hshape
      · exact .cons hcount hsides
    | group first rest mods => exact givesAt_rollGroup hP (fun x hx => hterm hx) mods n bare d hbare
    | sum head tail | chain head tail =>
      obtain ⟨⟨value, terms⟩, e, hterms, hbare⟩ := Rolling.answer_bind_eq_ok.1 hbare
      cases hbare
      have hterms := givesAt_rollChain horder (hterm List.mem_cons_self)
        (fun l hl => hterm (List.mem_cons_of_mem _ (List.mem_map_of_mem hl))) _ _ _ hterms
      exact .of_forall₂ (by simp [Form.Makes, Result.sum, Result.chain, Result.shape, Link.map,
        Function.comp_def]) hterms
    | function fn arg =>
      obtain ⟨r, e, hr, hbare⟩ := Rolling.answer_bind_eq_ok.1 hbare
      cases hbare
      exact .of_forall₂ rfl (.cons (hterm List.mem_cons_self n r _ hr) .nil)

end DiceNotation
