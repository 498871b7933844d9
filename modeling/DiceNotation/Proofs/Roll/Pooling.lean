import DiceNotation.Proofs.Roll.Orders
import DiceNotation.Proofs.Roll.Ranking

/-!
# Modifiers that reach into a pool

The modifiers of a group with a single member do not stop at the member, if that is
dice or a sum. They get the dice of its pool as one list, and what becomes of the
list decides the roll, with its halts and its draws (`answer_rollGroup_pool`). The
dice go back to where they came from, and the values around them are made again;
whatever no sum leads to stays what it was (`Result.Refilled`).

So it is the pool as a whole that a selection cuts (`SelectionsLeave`), and the pool
as a whole that is summed: signs and numbers between the dice have no part in the
value of the member.
-/

namespace DiceNotation

open Counted

/-! ## Putting dice back -/

namespace Result

mutual

/-- The dice that sums lead to in the first result are those of the first list, each
once and from left to right, and the second result is what the first becomes when
those of the second list lie in their places. Each of these comes from the one that
lay there, the values of dice and sums are made again, and all else stays. -/
inductive Refilled : Result → List RolledDie → List RolledDie → Result → Prop
  | dice {outcome : Outcome} {count : Result} {sides : Sides Result} {rolls rolls' : List RolledDie}
    {matched : Bool} :
    List.Forall₂ Changed rolls rolls' →
      Refilled (mk outcome (.dice count sides rolls matched)) rolls rolls'
        (mk (if matched then outcome else { outcome with value := sumTotals rolls' })
          (.dice count sides rolls' matched))
  | sum {outcome : Outcome} {terms terms' : List Result} {ops : List SumOp}
    {dice dice' : List RolledDie} :
    RefilledAll terms dice dice' terms' →
      Refilled (mk outcome (.sum terms ops)) dice dice'
        (mk { outcome with value := foldSum terms' ops } (.sum terms' ops))
  | other {r : Result} : r.isPooled = false → Refilled r [] [] r

/-- The same of terms, one after the other. -/
inductive RefilledAll : List Result → List RolledDie → List RolledDie → List Result → Prop
  | nil : RefilledAll [] [] [] []
  | cons {term term' : Result} {terms terms' : List Result}
    {dice dice' rest rest' : List RolledDie} :
    Refilled term dice dice' term' → RefilledAll terms rest rest' terms' →
      RefilledAll (term :: terms) (dice ++ rest) (dice' ++ rest') (term' :: terms')

end

/-- **The pool is what is refilled**, and refilling changes nothing else. -/
theorem refilled_refill_refresh {r : Result} {supply : List RolledDie}
    (h : List.Forall₂ Changed r.pool (supply.take r.pool.length)) :
    r.Refilled r.pool (supply.take r.pool.length) (r.refill supply).1.refresh := by
  induction r using sum_induction generalizing supply with
  | sum outcome terms ops ih =>
    rw [refill, refresh, pool]
    rw [pool] at h
    refine .sum ?_
    induction terms generalizing supply with
    | nil => exact .nil
    | cons term rest ih' =>
      -- the first term takes its own dice, and leaves those of the others
      rw [poolAll] at h
      obtain ⟨hterm, hrest⟩ := forall₂_append_take h
      rw [poolAll, List.length_append, List.take_add, refillAll, refreshAll,
        (pool_refill term supply).2]
      exact .cons (ih term List.mem_cons_self hterm)
        (ih' (fun t ht => ih t (List.mem_cons_of_mem _ ht)) hrest)
  | other outcome shape hshape =>
    cases shape with
    | sum terms ops => exact absurd rfl (hshape terms ops)
    | dice count sides rolls matched =>
      rw [pool] at h
      rw [pool, refill, refresh]
      exact .dice h
    | number | chain | group | function => exact .other rfl

/-- A result that has the order already stays as it is. -/
theorem setOrder_eq_self {r : Result} {order : Nat} (h : r.outcome.order = order) :
    setOrder order r = r := by
  obtain ⟨outcome, shape⟩ := r
  subst h
  rfl

end Result

/-- A roll is the first of whatever it stands among, until it is put elsewhere. -/
theorem Node.order_of_answer_roll {node : Node} {σ : Setting} {n d : Nat} {r : Result}
    (h : node.roll.answer σ n = (.ok r, d)) : r.outcome.order = 0 :=
  (diceLaw_inOrder.obeying_roll node σ n r d h).here.order_eq

/-! ## The pool as one list -/

section Group

variable {σ : Setting} {n e : Nat} {member : Result}

/-- **The modifiers are run on the pool**, with all its dice in one list. -/
theorem answer_rollGroup_pool {child : Rolling Result} {mods : List (Modifier (Rolling Result))}
    (hmods : mods ≠ []) (hchild : child.answer σ n = (.ok member, e)) (hpooled : member.isPooled) :
    (rollGroup [child] mods).answer σ n =
      ((fun dice => Result.group [setValue (sumTotals (settle mods dice))
        ((setOrder 0 member).refill (settle mods dice)).1.refresh]) <$>
          mods.foldlM Modifier.applyToItems member.pool).answer σ e := by
  have hmembers : ([child].mapM id).answer σ n = (.ok [member], e) := by
    simp [Rolling.answer_map, hchild, Except.map]
  have hpool : (setOrder 0 member).pool = member.pool :=
    Result.pool_congr (Result.shape_setOrder ..)
  have hpooled' : (setOrder 0 member).isPooled = true :=
    (Result.isPooled_congr (Result.shape_setOrder ..)).trans hpooled
  obtain ⟨first, mods, rfl⟩ := List.exists_cons_of_ne_nil hmods
  rw [rollGroup, Rolling.answer_bind, hmembers]
  simp [numbered, hpooled', rollPool, hpool, Rolling.answer_bind, Rolling.answer_map]

/-- **A single member has the sum of its pool for a value**, if there are modifiers and
it has a pool. -/
theorem value_of_answer_rollGroup_pool {members : List (Rolling Result)}
    {mods : List (Modifier (Rolling Result))} (hmods : mods ≠ []) {r : Result} {d : Nat}
    (h : (rollGroup members mods).answer σ n = (.ok r, d)) (hr : r.shape = .group [member])
    (hpooled : member.isPooled) : member.value = sumTotals member.pool := by
  obtain ⟨results, e, -, h⟩ := answer_rollGroup_eq_ok h
  rcases h with ⟨m, dice, -, -, -, hdice, rfl⟩ | ⟨hstopped, items, hitems, rfl⟩
  · obtain rfl : setValue (sumTotals (settle mods dice)) (m.refill (settle mods dice)).1.refresh =
      member := by simpa [Result.group, Result.shape] using hr
    rw [Result.pool_congr (Result.shape_setValue ..), Result.pool_refill_refresh
      (changed_settle_foldlM hdice).length_eq.symm, Result.value, Result.outcome_setValue]
  · -- the modifiers stopped at the member, so it had no pool
    have hmember : settle mods items = [member] := by simpa [Result.group, Result.shape] using hr
    have hchanged := changed_settle_foldlM hitems
    rw [hmember] at hchanged
    obtain ⟨m, l, hm, hl, hresults⟩ := List.forall₂_cons_right_iff.1 hchanged
    obtain rfl := List.forall₂_nil_right_iff.1 hl
    have hnot := (hstopped.resolve_left hmods) m hresults
    rw [Result.isPooled_congr hm.shape_eq, hnot] at hpooled
    cases hpooled

end Group

/-! ## Selections, one after the other -/

def Modifier.isSelection {ε : Type} : Modifier ε → Bool
  | .select .. => true
  | _ => false

/-- Of so many items some still count, and selections are made, each with the count
that its expression gives by then: after them so many draws were made, and so many
items still count. -/
inductive SelectionsLeave (σ : Setting) (size : Nat) :
    List (Modifier Node) → (drawn left drawn' left' : Nat) → Prop
  | nil {n k : Nat} : SelectionsLeave σ size [] n k n k
  | cons {action : Selection} {extreme : Option Extreme} {count : Node}
    {mods : List (Modifier Node)} {r : Result} {n e d k c k' : Nat} :
    count.roll.answer σ n = (.ok r, e) → r.value.AsksFor size c →
      SelectionsLeave σ size mods e (action.leaves k c) d k' →
        SelectionsLeave σ size (.select action extreme count :: mods) n k d k'

section Selections

variable {α : Type} [Counted α] {mods : List (Modifier Node)} {items items' : List α}
  {σ : Setting} {n d : Nat}

/-- **Each selection leaves what its count says** of those that the ones before it
have left. -/
theorem selectionsLeave_of_answer_foldlM [Lawful α] (hmods : ∀ m ∈ mods, m.isSelection)
    (h : ((mods.map (Modifier.map Node.roll)).foldlM Modifier.applyToItems items).answer σ n =
      (.ok items', d)) :
    SelectionsLeave σ items.length mods n (items.countP valid) d (items'.countP valid) := by
  induction mods generalizing items n with
  | nil =>
    cases h
    exact .nil
  | cons m mods ih =>
    obtain ⟨hm, hrest⟩ := List.forall_mem_cons.1 hmods
    cases m with
    | select action extreme count =>
      rw [List.map_cons, List.foldlM_cons, Rolling.answer_bind_eq_ok] at h
      obtain ⟨selected, e, hselected, h⟩ := h
      obtain ⟨r, e', hr, hselected⟩ := Rolling.answer_bind_eq_ok.1 hselected
      cases hselected
      have hstep := selected_selectItems value items action extreme r.value
      have hleave := ih hrest h
      rw [hstep.countP_valid, ← hstep.forall₂.length_eq] at hleave
      exact .cons hr (r.value.asksFor_toCount _) hleave
    | test | again | unsupported => cases hm

/-- Selections convert nothing. -/
theorem settle_of_isSelection (hmods : ∀ m ∈ mods, m.isSelection) (items : List α) :
    settle mods items = items := by
  rw [settle, if_neg]
  rw [Bool.not_eq_true, List.any_eq_false]
  intro m hm
  cases m with
  | select => simp [Modifier.isTarget]
  | test | again | unsupported => cases hmods _ hm

end Selections

/-! ## Expressions -/

/-- **Modifiers of a single member act on its dice.** If the only member of a group
gives dice or a sum, the modifiers are those of the one list of all dice that sums
lead to. Where they halt on the list, so does the roll. Where they do not, the dice
go back to where they lay, with sums of their own where no match is counted, and
nothing but these changes; the member gets the sum of the whole list for a value, and
with selections alone that is what their counts leave of the whole list. -/
theorem Node.answer_roll_pool {child : Node} {mods : List (Modifier Node)} {σ : Setting}
    {n e : Nat} {member : Result} (hmods : mods ≠ [])
    (hchild : child.roll.answer σ n = (.ok member, e)) (hpooled : member.isPooled)
    (label : Option String) :
    let onPool := (mods.map (Modifier.map roll)).foldlM Modifier.applyToItems member.pool
    let group := term (.group child [] mods) label
    (∀ halt d, onPool.answer σ e = (.error halt, d) →
      group.roll.answer σ n = (.error halt, d)) ∧
    ∀ items d, onPool.answer σ e = (.ok items, d) → ∃ dice only,
      dice = settle mods items ∧ member.Refilled member.pool dice only ∧
      group.roll.answer σ n =
        (.ok ((Result.group [setValue (sumTotals dice) only]).relabel label), d) ∧
      ((∀ m ∈ mods, m.isSelection) → SelectionsLeave σ member.pool.length mods
        e (member.pool.countP valid) d (dice.countP valid)) := by
  intro onPool group
  have hgroup : group.roll.answer σ n =
      ((fun dice => (Result.group [setValue (sumTotals (settle mods dice))
        (member.refill (settle mods dice)).1.refresh]).relabel label) <$> onPool).answer σ e := by
    have hmods' : mods.map (Modifier.map roll) ≠ [] := by simpa using hmods
    have hroll := answer_rollGroup_pool hmods' hchild hpooled
    rw [Result.setOrder_eq_self (Node.order_of_answer_roll hchild)] at hroll
    simp only [settle_map_modifiers] at hroll
    rw [Node.roll_term, Form.rollLabelled, ← map_eq_pure_bind, Rolling.answer_map]
    simp only [Form.map, List.map_nil, Form.roll, hroll, Rolling.answer_map]
    rcases onPool.answer σ e with ⟨_ | dice, d⟩ <;> rfl
  refine ⟨fun halt d h => ?_, fun items d h => ?_⟩
  · rw [hgroup, Rolling.answer_map, h]
    rfl
  · have hchanged : List.Forall₂ Changed member.pool (settle mods items) := by
      rw [← settle_map_modifiers Node.roll]
      exact changed_settle_foldlM h
    -- there are as many dice as the pool had, so all of them go back
    have hall : (settle mods items).take member.pool.length = settle mods items := by
      rw [hchanged.length_eq, List.take_length]
    refine ⟨_, (member.refill (settle mods items)).1.refresh, rfl, ?_, ?_, fun hselections => ?_⟩
    · have hrefilled := Result.refilled_refill_refresh (by rwa [hall])
      rwa [hall] at hrefilled
    · rw [hgroup, Rolling.answer_map, h]
      rfl
    · rw [settle_of_isSelection hselections]
      exact selectionsLeave_of_answer_foldlM hselections h

/-- Two dice less one and three more, of which a group keeps the two highest dice. -/
theorem Node.answer_roll_pool_signs :
    let dice (count : Int64) : Node :=
      .term (.die { sides := .numeric (.int 6), count := .int count }) none
    let child : Node := .term (.sum (dice 2) [⟨.sub, dice 1⟩, ⟨.add, .int 3⟩]) none
    let mods : List (Modifier Node) := [.select .keep (some .high) (.int 2)]
    let tenths (k : Nat) : Double := .ofRatio false k 10
    let σ : Setting := ⟨.ofList [tenths 9, tenths 3, tenths 5], 1000⟩
    ∃ member, child.roll.answer σ 0 = (.ok member, 3) ∧ member.pool.length = 3 ∧
      ∃ dice only, member.Refilled member.pool dice only ∧
        (term (.group child [] mods) none).roll.answer σ 0 =
          (.ok (Result.group [setValue (sumTotals dice) only]), 3) ∧
        SelectionsLeave σ member.pool.length mods
          3 (member.pool.countP valid) 3 (dice.countP valid) := by
  intro dice child mods tenths σ
  have hboth : ∃ member, child.roll.answer σ 0 = (.ok member, 3) ∧
      (member.isPooled, member.pool.length) = (true, 3) :=
    Rolling.exists_answer_eq_ok_of_map _ (by decide +kernel)
  obtain ⟨member, hchild, hmember⟩ := hboth
  obtain ⟨hpooled, hlength⟩ := Prod.mk.inj hmember
  have hpool : ∃ items, (child.roll >>= fun r => (mods.map (Modifier.map roll)).foldlM
      Modifier.applyToItems r.pool).answer σ 0 = (.ok items, 3) :=
    Rolling.exists_answer_eq_ok (by decide +kernel)
  obtain ⟨items, hitems⟩ := hpool
  rw [Rolling.answer_bind, hchild] at hitems
  have hmods : mods ≠ [] := by simp [mods]
  obtain ⟨dice, only, -, hrefilled, hroll, hleave⟩ :=
    (Node.answer_roll_pool hmods hchild hpooled none).2 items 3 hitems
  exact ⟨member, hchild, hlength, dice, only, hrefilled, hroll,
    hleave (by simp [mods, Modifier.isSelection])⟩

end DiceNotation
