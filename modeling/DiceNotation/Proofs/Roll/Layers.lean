import DiceNotation.Proofs.Roll.Places
import DiceNotation.Proofs.Roll.Running
import DiceNotation.Roll.Evaluate

/-!
# Layers taken apart

What a layer of an expression can have been if its roll succeeded: for dice,
groups and chains, the successful answers of their steps, in order, and the
result that they make. Draws are placed along the way, so a result is traced to
the values that it was made of.
-/

namespace DiceNotation

open Counted

variable {σ : Setting} {n d : Nat} {r : Result}

/-! ## Dice -/

section Dice

variable {spec : DieSpec (Rolling Result)}

/-- **Dice, step by step**: the count, the sides, the rolls, the result. -/
theorem DieSpec.answer_roll_eq_ok :
    spec.roll.answer σ n = (.ok r, d) ↔
      ∃ count e₁, spec.count.answer σ n = (.ok count, e₁) ∧
        ∃ k e₂, (diceCount count.value).answer σ e₁ = (.ok k, e₂) ∧
        ∃ sides kind e₃, spec.sides.resolve.answer σ e₂ = (.ok (sides, kind), e₃) ∧
        ∃ rolls e₄, (spec.rollDice kind k).answer σ e₃ = (.ok rolls, e₄) ∧
          (spec.conclude count sides rolls).answer σ e₄ = (.ok r, d) := by
  simp [DieSpec.roll]

/-- Sides that are resolved are Fate's, or an expression's of one at least. -/
theorem Sides.answer_resolve_eq_ok {sides : Sides (Rolling Result)} {resolved : Sides Result}
    {kind : DieType} (h : sides.resolve.answer σ n = (.ok (resolved, kind), d)) :
    (sides = .fate ∧ resolved = .fate ∧ kind = .fate ∧ d = n) ∨
      ∃ roll faces, sides = .numeric roll ∧ roll.answer σ n = (.ok faces, d) ∧
        resolved = .numeric faces ∧ kind = .numeric faces.value.toInt64 ∧
        faces.value.atLeast (.int 1) := by
  cases sides with
  | fate =>
    cases h
    exact .inl ⟨rfl, rfl, rfl, rfl⟩
  | numeric roll =>
    rw [resolve, Rolling.answer_bind_eq_ok] at h
    obtain ⟨faces, e, hroll, h⟩ := h
    rw [Rolling.answer_ite] at h
    split at h
    next hleast =>
      cases h
      exact .inr ⟨roll, faces, rfl, hroll, rfl, rfl, hleast⟩
    next => cases h

/-- The sides are what their expression gives, if they have one. -/
theorem Sides.gives_resolve {Q : Result → Prop} {sides : Sides (Rolling Result)}
    (h : ∀ x ∈ sides.parts, x.Gives Q) : sides.resolve.Gives fun p => ∀ f ∈ p.1.parts, Q f := by
  intro σ n p d hp
  rcases answer_resolve_eq_ok hp with ⟨-, hfate, -⟩ | ⟨roll, faces, hroll, hf, hfaces, -⟩
  · simp [hfate, Sides.parts]
  · have := h roll (by simp [hroll, Sides.parts]) _ _ _ _ hf
    simpa [hfaces, Sides.parts] using this

/-- The dice are there before they are matched; matching marks them, and may
count them. -/
theorem DieSpec.answer_conclude_eq_ok {count : Result} {sides : Sides Result}
    {rolls : List RolledDie} (h : (spec.conclude count sides rolls).answer σ n = (.ok r, d)) :
    (spec.matching = none ∧ d = n ∧ r = .dice count sides (spec.arrange rolls)) ∨
      ∃ m faces, spec.matching = some m ∧ (m.faces rolls).answer σ n = (.ok faces, d) ∧
        r = if m.counts then
            .matchedDice count sides (spec.arrange (markMatched faces rolls)) faces.length
          else .dice count sides (spec.arrange (markMatched faces rolls)) := by
  rw [conclude] at h
  split at h
  next hnone =>
    cases h
    exact .inl ⟨hnone, rfl, rfl⟩
  next m hsome =>
    obtain ⟨faces, e, hfaces, h⟩ := Rolling.answer_bind_eq_ok.1 h
    cases h
    exact .inr ⟨m, faces, hsome, hfaces, rfl⟩

/-- What comes after the modifiers only marks matches and lays out. -/
theorem DieSpec.exists_shape_of_answer_conclude {count : Result} {sides : Sides Result}
    {rolls : List RolledDie} (h : (spec.conclude count sides rolls).answer σ n = (.ok r, d)) :
    ∃ faces matched,
      r.shape = .dice count sides (spec.arrange (markMatched faces rolls)) matched := by
  rcases DieSpec.answer_conclude_eq_ok h with ⟨-, -, rfl⟩ | ⟨m, faces, -, -, rfl⟩
  · exact ⟨[], false, by simp [markMatched, Result.dice, Result.shape]⟩
  · cases m.counts with
    | false => exact ⟨faces, false, rfl⟩
    | true => exact ⟨faces, true, rfl⟩

end Dice

/-! ## Groups -/

/-- A single member comes from a single item. -/
theorem exists_of_numbered_eq_singleton {α : Type} [Counted α] {items : List α} {a : α}
    (h : numbered items = [a]) : ∃ b, items = [b] ∧ a = setOrder 0 b := by
  match items with
  | [] => simp [numbered] at h
  | [b] => exact ⟨b, rfl, by simpa [numbered] using h.symm⟩
  | _ :: _ :: _ => simp [numbered] at h

/-- **A group, step by step**: its members, then its modifiers, on the pool of
a single member or on the members themselves. -/
theorem answer_rollGroup_eq_ok {members : List (Rolling Result)}
    {mods : List (Modifier (Rolling Result))}
    (h : (rollGroup members mods).answer σ n = (.ok r, d)) :
    ∃ results e, (members.mapM id).answer σ n = (.ok results, e) ∧
      ((∃ member dice, numbered results = [member] ∧ mods ≠ [] ∧ member.isPooled ∧
          (mods.foldlM Modifier.applyToItems member.pool).answer σ e = (.ok dice, d) ∧
          r = .group [setValue (sumTotals (settle mods dice))
            (member.refill (settle mods dice)).1.refresh]) ∨
        (mods = [] ∨ ∀ member, numbered results = [member] → member.isPooled = false) ∧
          ∃ items, (mods.foldlM Modifier.applyToItems (numbered results)).answer σ e =
            (.ok items, d) ∧ r = .group (settle mods items)) := by
  obtain ⟨results, e, hresults, hmods⟩ := Rolling.answer_bind_eq_ok.1 h
  clear h
  refine ⟨results, e, hresults, ?_⟩
  dsimp only at hmods
  split at hmods
  next =>
    cases hmods
    exact .inr ⟨.inl rfl, numbered results, rfl, rfl⟩
  -- a sole member is modified as a pool if it has one
  next member hsome hmember =>
    rw [Rolling.answer_ite] at hmods
    split at hmods
    next hpooled =>
      obtain ⟨pooled, e', hpool, h⟩ := Rolling.answer_bind_eq_ok.1 hmods
      obtain ⟨dice, e'', hdice, hpool⟩ := Rolling.answer_bind_eq_ok.1 hpool
      cases hpool
      cases h
      exact .inl ⟨member, dice, hmember, hsome, hpooled, hdice, rfl⟩
    next hpooled =>
      obtain ⟨items, e', hitems, h⟩ := Rolling.answer_bind_eq_ok.1 hmods
      cases h
      refine .inr ⟨.inr fun m hm => ?_, items, hitems, rfl⟩
      obtain rfl : member = m := by simpa [hmember] using hm
      simpa using hpooled
  -- several members are modified as they are
  next _ hmany =>
    obtain ⟨items, e', hitems, h⟩ := Rolling.answer_bind_eq_ok.1 hmods
    cases h
    exact .inr ⟨.inr fun m hm => absurd hm (hmany m), items, hitems, rfl⟩

/-! ## Chains -/

section Chains

variable {ω : Type} {apply : ω → Number → Number → Rolling Number} {order : Nat}
  {value total : Number} {terms : List Result} {tail : List (Link ω (Rolling Result))}

/-- **One more term**: it is rolled, then its operator is applied, then come
the others. -/
theorem answer_rollLinks_cons {link : Link ω (Rolling Result)}
    (h : (rollLinks apply order value (link :: tail)).answer σ n = (.ok (total, terms), d)) :
    ∃ r e₁, link.term.answer σ n = (.ok r, e₁) ∧
      ∃ v e₂, (apply link.op value r.value).answer σ e₁ = (.ok v, e₂) ∧
      ∃ rest, (rollLinks apply (order + 1) v tail).answer σ e₂ = (.ok (total, rest), d) ∧
        terms = setOrder order r :: rest := by
  obtain ⟨r, e₁, hr, h⟩ := Rolling.answer_bind_eq_ok.1 h
  obtain ⟨v, e₂, hv, h⟩ := Rolling.answer_bind_eq_ok.1 h
  obtain ⟨⟨total, rest⟩, e₃, hrest, h⟩ := Rolling.answer_bind_eq_ok.1 h
  cases h
  exact ⟨r, e₁, hr, v, e₂, by rwa [Result.value_setOrder] at hv, rest, hrest, rfl⟩

/-- A chain is rolled from its first term on, and then link by link. -/
theorem answer_rollChain_eq_ok {head : Rolling Result}
    (h : (rollChain apply head tail).answer σ n = (.ok (total, terms), d)) :
    ∃ first e rest, head.answer σ n = (.ok first, e) ∧
      (rollLinks apply 0 first.value tail).answer σ e = (.ok (total, rest), d) ∧
        terms = first :: rest := by
  obtain ⟨first, e, hfirst, h⟩ := Rolling.answer_bind_eq_ok.1 h
  obtain ⟨⟨total, rest⟩, e', hrest, h⟩ := Rolling.answer_bind_eq_ok.1 h
  cases h
  exact ⟨first, e, rest, hfirst, hrest, rfl⟩

/-- An operator draws nothing, and if it is not refused it is the plain one. -/
theorem ArithOp.answer_rollApply {op : ArithOp} {x y v : Number}
    (h : (op.rollApply x y).answer σ n = (.ok v, d)) : v = op.apply x y ∧ d = n := by
  cases op with
  | add | sub | mul | pow =>
    cases h
    exact ⟨rfl, rfl⟩
  | div | rem =>
    rw [rollApply, Rolling.answer_ite] at h
    split at h <;> cases h
    exact ⟨rfl, rfl⟩

end Chains

/-! ### Terms one by one -/

section Terms

variable {ε ω : Type} {R : ε → Result → Prop} {roll : ε → Rolling Result}
  {apply : ω → Number → Number → Rolling Number} {tail : List (Link ω ε)}
  (hR : ∀ {x : ε} {r : Result}, R x r → ∀ order, R x (setOrder order r))

include hR

/-- Each term is the result of its roll. -/
theorem givesAt_rollLinks (htail : ∀ l ∈ tail, (roll l.term).GivesAt σ (R l.term))
    (order : Nat) (value : Number) :
    (rollLinks apply order value (tail.map (Link.map roll))).GivesAt σ fun p =>
      List.Forall₂ R (tail.map Link.term) p.2 := by
  induction tail generalizing order value with
  | nil => exact Rolling.givesAt_pure .nil
  | cons link tail ih =>
    rintro n ⟨total, terms⟩ d h
    obtain ⟨r, e₁, hr, v, e₂, -, rest, hrest, rfl⟩ := answer_rollLinks_cons h
    have hr := htail link List.mem_cons_self n r e₁ hr
    exact .cons (hR hr order) (ih (fun l hl => htail l (List.mem_cons_of_mem _ hl)) _ _ _ _ _ hrest)

/-- **Each term of a chain** goes with the one that is written. -/
theorem givesAt_rollChain {head : ε} (hhead : (roll head).GivesAt σ (R head))
    (htail : ∀ l ∈ tail, (roll l.term).GivesAt σ (R l.term)) :
    (rollChain apply (roll head) (tail.map (Link.map roll))).GivesAt σ fun p =>
      List.Forall₂ R (head :: tail.map Link.term) p.2 := by
  rintro n ⟨total, terms⟩ d h
  obtain ⟨first, e, rest, hfirst, hrest, rfl⟩ := answer_rollChain_eq_ok h
  exact .cons (hhead n first e hfirst) (givesAt_rollLinks hR htail _ _ _ _ _ hrest)

end Terms

/-! ## Labels -/

@[simp] theorem Result.shape_relabel (label : Option String) (r : Result) :
    (r.relabel label).shape = r.shape := by
  cases label with
  | none => rfl
  | some label => exact shape_setOutcome ..

theorem Result.value_relabel (label : Option String) (r : Result) :
    (r.relabel label).value = r.value := by
  cases label <;> cases r <;> rfl

/-- A label leaves the value of what it is put on. -/
theorem Form.value_rollLabelled (form : Form (Rolling Result)) (label : Option String) :
    Result.value <$> form.rollLabelled label = Result.value <$> form.roll := by
  simp [rollLabelled, Result.value_relabel]

/-- A labelled roll is the roll of the form with the label put on. -/
theorem Form.answer_rollLabelled_eq_ok {form : Form (Rolling Result)} {label : Option String}
    (h : (form.rollLabelled label).answer σ n = (.ok r, d)) :
    ∃ bare, form.roll.answer σ n = (.ok bare, d) ∧ r = bare.relabel label := by
  obtain ⟨bare, e, hbare, h⟩ := Rolling.answer_bind_eq_ok.1 h
  cases h
  exact ⟨bare, hbare, rfl⟩

end DiceNotation
