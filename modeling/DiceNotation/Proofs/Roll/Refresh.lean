import DiceNotation.Proofs.Roll.ValueLaws

/-!
# Fresh results

When the modifiers of a group changed the dice of its only member, the values around
them are made again: the dice are summed, and the sums are folded. That is code of its
own beside the evaluator's. On a result that the evaluator just made it does nothing, so
the two agree number for number (`Node.refresh_roll`).

The evaluator rolls a term, applies its operator, rolls the next, and takes the operator
from the ones of math expressions. A refresh has all terms before it and knows `+` and
`-` only. Since neither of these draws or refuses, rolling and adding by turns is rolling
everything and folding it afterwards (`rollChain_pure`).
-/

namespace DiceNotation

open Counted

/-! ## What is up to date -/

/-- The value is the one that a refresh makes, and so are those of the terms. -/
def Shape.UpToDate (value : Number) : Shape Result → Prop
  | .dice _ _ rolls matched => matched = false → value = sumTotals rolls
  | .sum terms ops => (∀ t ∈ terms, t.refresh = t) ∧ value = Result.foldSum terms ops
  | _ => True

namespace Result

variable {r s : Result}

/-- Terms are up to date if each of them is. -/
theorem map_refresh_eq_self {terms : List Result} :
    terms.map refresh = terms ↔ ∀ t ∈ terms, t.refresh = t := by
  simpa using List.map_inj_left (l := terms) (f := refresh) (g := id)

/-- **What a refresh leaves alone** has the values that the refresh makes. -/
theorem refresh_eq_self_iff : r.refresh = r ↔ r.shape.UpToDate r.value := by
  obtain ⟨outcome, shape⟩ := r
  cases shape with
  | dice count sides rolls matched =>
    cases matched with
    | true => simp [refresh, shape, Shape.UpToDate]
    | false =>
      obtain ⟨v, _⟩ := outcome
      simp [refresh, shape, value, Result.outcome, Shape.UpToDate, eq_comm]
  | sum terms ops =>
    rw [refresh, refreshAll_eq_map]
    obtain ⟨v, _⟩ := outcome
    rw [shape, value, Result.outcome, Shape.UpToDate, ← map_refresh_eq_self]
    constructor
    · intro h
      simp only [mk.injEq, Shape.sum.injEq, Outcome.mk.injEq] at h
      obtain ⟨⟨hvalue, -⟩, hterms, -⟩ := h
      -- the fold is over the refreshed terms, and these are the terms themselves
      rw [hterms] at hvalue
      exact ⟨hterms, hvalue.symm⟩
    · rintro ⟨hterms, rfl⟩
      simp only [hterms]
  | number | chain | group | function => simp [refresh, shape, Shape.UpToDate]

/-- Only the value and the parts matter to a refresh. -/
theorem refresh_eq_self_congr (h : r.refresh = r) (hshape : s.shape = r.shape)
    (hvalue : s.value = r.value) : s.refresh = s := by
  rw [refresh_eq_self_iff] at h ⊢
  rwa [hshape, hvalue]

end Result

/-! ## Rolling and folding -/

/-- The operator of a math expression that stands for the one between dice. -/
def SumOp.toArith : SumOp → ArithOp
  | .add => .add
  | .sub => .sub

/-- Neither operator refuses anything. -/
theorem SumOp.rollApply_toArith :
    (fun op : SumOp => op.toArith.rollApply) = fun op x y => return op.apply x y := by
  funext op x y
  cases op <;> rfl

section Terms

variable {ω : Type} (f : ω → Number → Number → Number) (head : Rolling Result)
  (tail : List (Link ω (Rolling Result)))

/-- Rolls the terms after the first one. -/
def rollTail : Nat → List (Link ω (Rolling Result)) → Rolling (List Result)
  | _, [] => return []
  | order, link :: rest => do
    let term := setOrder order (← link.term)
    return term :: (← rollTail (order + 1) rest)

/-- Rolls all the terms of a chain, and computes nothing. -/
def rollTerms : Rolling (List Result) := do
  let head ← head
  return head :: (← rollTail 0 tail)

/-- Combining as one goes along is rolling all terms and combining them then. -/
theorem rollLinks_pure (order : Nat) (value : Number) :
    rollLinks (fun op x y => return f op x y) order value tail = do
      let terms ← rollTail order tail
      return (((tail.map Link.op).zip terms).foldl (fun v p => f p.1 v p.2.value) value,
        terms) := by
  induction tail generalizing order value with
  | nil => simp [rollLinks, rollTail]
  | cons link tail ih => simp [rollLinks, rollTail, ih]

/-- **Operators that only compute** may wait until everything is rolled. -/
theorem rollChain_pure :
    rollChain (fun op x y => return f op x y) head tail = do
      let terms ← rollTerms head tail
      return (leftFold f terms (tail.map Link.op), terms) := by
  simp [rollChain, rollTerms, rollLinks_pure, leftFold]

end Terms

section Sums

variable (head : Rolling Result) (tail : List (Link SumOp (Rolling Result)))

/-- **A sum is folded as a refresh folds it**, through the operators of math expressions. -/
theorem rollChain_toArith :
    rollChain (fun op => op.toArith.rollApply) head tail = do
      let terms ← rollTerms head tail
      return (Result.foldSum terms (tail.map Link.op), terms) := by
  simp only [SumOp.rollApply_toArith, rollChain_pure, foldSum_eq_leftFold]

/-- A sum is rolled as a chain of its operators. -/
theorem Form.roll_sum :
    (Form.sum head tail).roll = do
      let (value, terms) ← rollChain (fun op => op.toArith.rollApply) head tail
      return .sum value terms (tail.map Link.op) := by
  rw [SumOp.rollApply_toArith]
  rfl

end Sums

/-! ## Layers -/

/-- The roll gives only results that a refresh leaves alone. -/
abbrev GivesFresh (m : Rolling Result) : Prop := m.Gives fun r => r.refresh = r

/-- Dice are up to date as they are rolled. -/
theorem DieSpec.givesFresh_roll (spec : DieSpec (Rolling Result)) : GivesFresh spec.roll := by
  intro σ n r d h
  obtain ⟨count, e₁, -, k, e₂, -, sides, kind, e₃, -, rolls, e₄, -, h⟩ :=
    DieSpec.answer_roll_eq_ok.1 h
  rw [Result.refresh_eq_self_iff]
  rcases DieSpec.answer_conclude_eq_ok h with ⟨-, -, rfl⟩ | ⟨m, faces, -, -, rfl⟩
  · exact fun _ => rfl
  · cases m.counts with
    | false => exact fun _ => rfl
    | true => exact fun hmatched => by cases hmatched

/-- The terms are up to date if their rolls are. -/
theorem gives_rollTail {ω : Type} {tail : List (Link ω (Rolling Result))}
    (h : ∀ l ∈ tail, GivesFresh l.term) (order : Nat) :
    (rollTail order tail).Gives fun terms => ∀ t ∈ terms, t.refresh = t := by
  induction tail generalizing order with
  | nil => exact Rolling.gives_pure (by simp)
  | cons link tail ih =>
    refine (h link List.mem_cons_self).bind fun r hr => ?_
    refine (ih (fun l hl => h l (List.mem_cons_of_mem _ hl)) (order + 1)).bind
      fun terms hterms => ?_
    refine Rolling.gives_pure (List.forall_mem_cons.2 ⟨?_, hterms⟩)
    exact Result.refresh_eq_self_congr hr (Result.shape_setOrder ..) (Result.value_setOrder ..)

/-- A sum of fresh terms is fresh: its value is their fold. -/
theorem givesFresh_sum {head : Rolling Result} {tail : List (Link SumOp (Rolling Result))}
    (hhead : GivesFresh head) (htail : ∀ l ∈ tail, GivesFresh l.term) :
    GivesFresh (Form.sum head tail).roll := by
  rw [Form.roll_sum, rollChain_toArith]
  simp only [rollTerms, bind_assoc, pure_bind]
  refine hhead.bind fun first hfirst => (gives_rollTail htail 0).bind fun rest hrest => ?_
  refine Rolling.gives_pure (Result.refresh_eq_self_iff.2 ⟨?_, rfl⟩)
  exact List.forall_mem_cons.2 ⟨hfirst, hrest⟩

/-- **One layer**: what has a pool is made fresh, and a refresh does not look into the rest. -/
theorem Form.givesFresh_roll {form : Form (Rolling Result)}
    (h : ∀ x ∈ form.terms, GivesFresh x) : GivesFresh form.roll := by
  cases form with
  | number value => exact Rolling.gives_pure (Result.refresh_eq_self_iff.2 trivial)
  | inline expr => exact h expr List.mem_cons_self
  | die spec => exact spec.givesFresh_roll
  | group first rest mods =>
    intro σ n r d hr
    obtain ⟨results, e, -, hr⟩ := answer_rollGroup_eq_ok hr
    rcases hr with ⟨member, dice, -, -, -, -, rfl⟩ | ⟨-, items, -, rfl⟩
    · exact Result.refresh_eq_self_iff.2 trivial
    · exact Result.refresh_eq_self_iff.2 trivial
  | sum head tail =>
    exact givesFresh_sum (h _ List.mem_cons_self) fun l hl =>
      h _ (List.mem_cons_of_mem _ (List.mem_map_of_mem hl))
  | chain | function =>
    exact Rolling.gives_bind fun _ =>
      Rolling.gives_pure (Result.refresh_eq_self_iff.2 trivial)

/-! ## Expressions -/

/-- What is rolled is up to date. -/
theorem Node.givesFresh_roll (node : Node) : GivesFresh node.roll := by
  refine Node.fold_induction (P := GivesFresh) (fun form label hparts => ?_)
    (Rolling.gives_throw _ _) node
  have hform : GivesFresh form.roll :=
    Form.givesFresh_roll fun x hx => hparts x (Form.mem_parts_of_mem_terms hx)
  refine hform.bind fun r hr => Rolling.gives_pure ?_
  exact Result.refresh_eq_self_congr hr (Result.shape_relabel ..) (Result.value_relabel ..)

/-- **A refresh agrees with the evaluator.** Whatever an expression rolls, a refresh of
the result changes nothing in it: not the dice that count matches, nor doubles, nor sums
that left the integers on their way. A sum is evaluated as a chain of a math expression,
and that is the fold of a refresh over the terms, once these are rolled. -/
theorem Node.refresh_roll (node : Node) :
    (∀ {σ : Setting} {n d : Nat} {r : Result},
        node.roll.answer σ n = (.ok r, d) → r.refresh = r) ∧
      ∀ (head : Rolling Result) (tail : List (Link SumOp (Rolling Result))),
        ((Form.sum head tail).roll = do
          let (value, terms) ← rollChain (fun op => op.toArith.rollApply) head tail
          return .sum value terms (tail.map Link.op)) ∧
        rollChain (fun op => op.toArith.rollApply) head tail = do
          let terms ← rollTerms head tail
          return (Result.foldSum terms (tail.map Link.op), terms) :=
  ⟨fun h => node.givesFresh_roll _ _ _ _ h, fun head tail =>
    ⟨Form.roll_sum head tail, rollChain_toArith head tail⟩⟩

/-- Two dice that count one match, in a sum that leaves the integers and goes on as a
double. -/
theorem Node.refresh_roll_overflow :
    let dice : Node := .term (.die
      { sides := .numeric (.int 6), count := .int 2, matching := some ⟨.int 2, true, none, none⟩ })
      (some "pair")
    let sum : Node := .sum dice
      [⟨.add, .int Int64.maxValue⟩, ⟨.sub, .number (.float (.ofRatio false 3 2))⟩]
    let half : Double := .ofRatio false 1 2
    ∃ r, sum.roll.answer ⟨.ofList [half, half], 1000⟩ 0 = (.ok r, 2) ∧ r.refresh = r ∧
      r.value = .float (.ofInt 0x8000000000000000) := by
  intro dice sum half
  obtain ⟨r, hr, hvalue⟩ : ∃ r, sum.roll.answer ⟨.ofList [half, half], 1000⟩ 0 = (.ok r, 2) ∧
      r.value = .float (.ofInt 0x8000000000000000) :=
    Rolling.exists_answer_eq_ok_of_map Result.value (by decide +kernel)
  exact ⟨r, hr, (Node.refresh_roll sum).1 hr, hvalue⟩

end DiceNotation
