import DiceNotation.Roll.Rolling
import Mathlib.Data.List.Forall2

/-!
# Running a roll

A computation is run on a setting and on the number of values drawn before it.
It answers with a result or a halt, and with the number drawn by then
(`Rolling.answer`). A successful answer of a sequence comes from successful
answers of its steps (`answer_bind_eq_ok`), so a roll is taken apart without
looking at how computations are represented.

`Rolling.Closed` is for properties of computations that sequencing keeps: they
hold of a loop as soon as they hold of its steps.
-/

namespace DiceNotation

/-- The supply of the given values, and no more. -/
def Supply.ofList (values : List Double) : Supply where
  value i := values.getD i .zero
  limit := values.length

namespace Rolling

variable {α β : Type} {σ : Setting} {n d : Nat}

/-- What a computation answers after `n` draws, and how many draws there are
then. -/
def answer (m : Rolling α) (σ : Setting) (n : Nat) : Except Halt α × Nat :=
  ((m.run σ).run).run n

/-! ## The answers of steps -/

@[simp] theorem answer_pure (a : α) : (pure a : Rolling α).answer σ n = (.ok a, n) := rfl

@[simp] theorem answer_refuse (e : RollError) :
    (refuse e : Rolling α).answer σ n = (.error (.refused e), n) := rfl

@[simp] theorem answer_throw (h : Halt) :
    (throw h : Rolling α).answer σ n = (.error h, n) := rfl

@[simp] theorem answer_read : (read : Rolling Setting).answer σ n = (.ok σ, n) := rfl

@[simp] theorem answer_remaining :
    remaining.answer σ n = (.ok (σ.supply.limit - n), n) := rfl

/-- A draw takes the next value, unless there is none. -/
theorem answer_draw :
    draw.answer σ n =
      if n < σ.supply.limit then (.ok (σ.supply.value n), n + 1) else (.error .unfinished, n) := by
  change (if n < σ.supply.limit then (do set (n + 1); return σ.supply.value n)
    else throw .unfinished : Rolling Double).answer σ n = _
  split <;> rfl

/-- The second part is answered after the draws of the first. -/
theorem answer_bind (m : Rolling α) (f : α → Rolling β) :
    (m >>= f).answer σ n =
      match m.answer σ n with
      | (.ok a, e) => (f a).answer σ e
      | (.error h, e) => (.error h, e) := by
  simp only [answer, ReaderT.run_bind, ExceptT.run_bind, StateT.run_bind]
  generalize StateT.run _ n = x
  obtain ⟨_ | a, e⟩ := x <;> rfl

/-- A replacement of the result draws nothing, and keeps every halt. -/
theorem answer_map (f : α → β) (m : Rolling α) :
    (f <$> m).answer σ n = ((m.answer σ n).1.map f, (m.answer σ n).2) := by
  rw [map_eq_pure_bind, answer_bind]
  rcases m.answer σ n with ⟨_ | a, e⟩ <;> rfl

/-- **A sequence succeeds step by step**: the second step starts with what the
first gives, after its draws. -/
@[simp] theorem answer_bind_eq_ok {m : Rolling α} {f : α → Rolling β} {b : β} :
    (m >>= f).answer σ n = (.ok b, d) ↔
      ∃ a e, m.answer σ n = (.ok a, e) ∧ (f a).answer σ e = (.ok b, d) := by
  rw [answer_bind]
  rcases m.answer σ n with ⟨_ | a, e⟩ <;> simp [and_assoc]

/-- **A sequence halts in its first step**, or in its second. -/
theorem answer_bind_eq_error {m : Rolling α} {f : α → Rolling β} {h : Halt} :
    (m >>= f).answer σ n = (.error h, d) ↔
      m.answer σ n = (.error h, d) ∨
        ∃ a e, m.answer σ n = (.ok a, e) ∧ (f a).answer σ e = (.error h, d) := by
  rw [answer_bind]
  rcases m.answer σ n with ⟨_ | a, e⟩ <;> simp [and_assoc]

/-- A computation of which the ending is known succeeds with something. -/
theorem exists_answer_eq_ok {m : Rolling α}
    (h : ((m.answer σ n).1.isOk, (m.answer σ n).2) = (true, d)) :
    ∃ a, m.answer σ n = (.ok a, d) := by
  rcases hm : m.answer σ n with ⟨_ | a, e⟩
  · simp [hm, Except.isOk, Except.toBool] at h
  · exact ⟨a, by simpa [hm] using (Prod.mk.inj h).2⟩

/-- The same, if something is known of what it succeeds with. -/
theorem exists_answer_eq_ok_of_map {m : Rolling α} (f : α → β) {b : β}
    (h : ((m.answer σ n).1.toOption.map f, (m.answer σ n).2) = (some b, d)) :
    ∃ a, m.answer σ n = (.ok a, d) ∧ f a = b := by
  rcases hm : m.answer σ n with ⟨_ | a, e⟩
  · simp [hm, Except.toOption] at h
  · simpa [hm, Except.toOption, and_comm] using h

theorem answer_ite {c : Prop} [Decidable c] {x y : Rolling α} :
    (if c then x else y).answer σ n = if c then x.answer σ n else y.answer σ n :=
  apply_ite (fun m : Rolling α => m.answer σ n) c x y

/-! ## The answers of dice -/

theorem answer_rollFace (kind : DieType) :
    kind.rollFace.answer σ n =
      if n < σ.supply.limit then (.ok (kind.face (σ.supply.value n)), n + 1)
      else (.error .unfinished, n) := by
  rw [DieType.rollFace, answer_bind, answer_draw]
  by_cases h : n < σ.supply.limit <;> simp [h]

/-- A die is rolled from the next value. -/
theorem answer_roll (kind : DieType) (order : Nat) :
    (kind.roll order).answer σ n =
      if n < σ.supply.limit then
        (.ok (.ofRoll kind (kind.face (σ.supply.value n)) order), n + 1)
      else (.error .unfinished, n) := by
  rw [DieType.roll, answer_bind, answer_rollFace]
  by_cases h : n < σ.supply.limit <;> simp [h]

/-- A die that was rolled took the next value. -/
theorem answer_roll_eq_ok {kind : DieType} {order : Nat} {die : RolledDie}
    (h : (kind.roll order).answer σ n = (.ok die, d)) :
    n < σ.supply.limit ∧ d = n + 1 ∧
      die = .ofRoll kind (kind.face (σ.supply.value n)) order := by
  rw [answer_roll] at h
  split at h
  next hlimit =>
    cases h
    exact ⟨hlimit, rfl, rfl⟩
  next => cases h

/-- Dice are rolled from one value each, in their order. -/
theorem answer_mapM_roll (kind : DieType) {l : List Nat} (h : l.length ≤ σ.supply.limit - n) :
    (l.mapM kind.roll).answer σ n =
      (.ok (l.mapIdx fun i => .ofRoll kind (kind.face (σ.supply.value (n + i)))),
        n + l.length) := by
  induction l generalizing n with
  | nil => rfl
  | cons order l ih =>
    rw [List.length_cons] at h
    have hn : n < σ.supply.limit := by omega
    simp only [List.mapM_cons, answer_bind, answer_roll, if_pos hn,
      ih (n := n + 1) (by omega), answer_pure, List.mapIdx_cons, List.length_cons]
    simp only [Nat.add_zero, Nat.add_assoc, Nat.add_comm 1]

/-- **The dice of one specification**: each takes the next value. -/
theorem answer_rollMany (kind : DieType) (k : Nat) :
    (kind.rollMany k).answer σ n =
      if σ.supply.limit - n < k then (.error .unfinished, n)
      else (.ok ((List.range k).map fun i =>
        .ofRoll kind (kind.face (σ.supply.value (n + i))) i), n + k) := by
  rw [DieType.rollMany, answer_bind, answer_remaining]
  simp only [answer_ite, answer_throw]
  split
  · rfl
  · rw [answer_mapM_roll kind (by rw [List.length_range]; omega), List.length_range]
    congr 2
    exact List.ext_getElem (by simp) (by simp)

/-! ## Successful loops -/

/-- **The invariant of a loop**: kept by every step, it holds after the last,
with the draws made by then. -/
theorem invariant_of_answer_foldlM {f : β → α → Rolling β} {I : Nat → β → Prop} {b' : β} :
    ∀ {l : List α} {b : β} {n : Nat},
      (∀ a ∈ l, ∀ b n b' d, I n b → (f b a).answer σ n = (.ok b', d) → I d b') →
      I n b → (l.foldlM f b).answer σ n = (.ok b', d) → I d b' := by
  intro l
  induction l with
  | nil =>
    intro b n _ hI h
    obtain ⟨rfl, rfl⟩ : b = b' ∧ n = d := by simpa using h
    exact hI
  | cons a l ih =>
    intro b n hstep hI h
    rw [List.foldlM_cons, answer_bind_eq_ok] at h
    obtain ⟨c, e, hc, h⟩ := h
    exact ih (fun a ha => hstep a (List.mem_cons_of_mem _ ha))
      (hstep a List.mem_cons_self b n c e hI hc) h

/-- Every result that the computation succeeds with, if it is run on the setting, has the
property. -/
def GivesAt (σ : Setting) (m : Rolling α) (Q : α → Prop) : Prop :=
  ∀ n a d, m.answer σ n = (.ok a, d) → Q a

section GivesAt

variable {Q : β → Prop}

theorem givesAt_pure {b : β} (h : Q b) : (pure b : Rolling β).GivesAt σ Q := by
  intro n c d hc
  cases hc
  exact h

theorem givesAt_throw (h : Halt) (Q : β → Prop) : (throw h : Rolling β).GivesAt σ Q := by
  intro n b d hb
  cases hb

/-- What the first part gives is what the second one starts from. -/
theorem GivesAt.bind {m : Rolling α} {f : α → Rolling β} {P : α → Prop} (hm : m.GivesAt σ P)
    (hf : ∀ a, P a → (f a).GivesAt σ Q) : (m >>= f).GivesAt σ Q := by
  intro n b d h
  obtain ⟨a, e, ha, hb⟩ := answer_bind_eq_ok.1 h
  exact hf a (hm n a e ha) e b d hb

/-- What follows does not depend on what the first step gives. -/
theorem givesAt_bind {m : Rolling α} {f : α → Rolling β} (hf : ∀ a, (f a).GivesAt σ Q) :
    (m >>= f).GivesAt σ Q := by
  intro n b d h
  obtain ⟨a, e, -, hb⟩ := answer_bind_eq_ok.1 h
  exact hf a e b d hb

/-- An invariant of each step holds at the end. -/
theorem GivesAt.foldlM {f : β → α → Rolling β} {l : List α} {b : β}
    (hstep : ∀ a ∈ l, ∀ b, Q b → (f b a).GivesAt σ Q) (hb : Q b) : (l.foldlM f b).GivesAt σ Q := by
  intro n b' d h
  exact invariant_of_answer_foldlM (I := fun _ => Q)
    (fun a ha b n b' d hQ hb => hstep a ha b hQ n b' d hb) hb h

/-- Each item is related to what it gave. -/
theorem GivesAt.forall₂_mapM {f : α → Rolling β} {R : α → β → Prop} {l : List α}
    (h : ∀ a ∈ l, (f a).GivesAt σ (R a)) : (l.mapM f).GivesAt σ (List.Forall₂ R l) := by
  induction l with
  | nil => exact givesAt_pure .nil
  | cons a l ih =>
    rw [List.mapM_cons]
    refine (h a List.mem_cons_self).bind fun b hb => ?_
    refine (ih fun a ha => h a (List.mem_cons_of_mem _ ha)).bind fun bs hbs => ?_
    exact givesAt_pure (.cons hb hbs)

/-- What each step gives all of the list has. -/
theorem GivesAt.mapM {f : α → Rolling β} {l : List α} (h : ∀ a ∈ l, (f a).GivesAt σ Q) :
    (l.mapM f).GivesAt σ fun bs => ∀ b ∈ bs, Q b := by
  induction l with
  | nil => exact givesAt_pure (by simp)
  | cons a l ih =>
    rw [List.mapM_cons]
    refine (h a List.mem_cons_self).bind fun b hb => ?_
    refine (ih fun a ha => h a (List.mem_cons_of_mem _ ha)).bind fun bs hbs => ?_
    exact givesAt_pure (List.forall_mem_cons.2 ⟨hb, hbs⟩)

theorem GivesAt.flatMapM {f : α → Rolling (List β)} {l : List α}
    (h : ∀ a ∈ l, (f a).GivesAt σ fun bs => ∀ b ∈ bs, Q b) :
    (l.flatMapM f).GivesAt σ fun bs => ∀ b ∈ bs, Q b := by
  induction l with
  | nil => exact givesAt_pure (by simp)
  | cons a l ih =>
    rw [List.flatMapM_cons]
    refine (h a List.mem_cons_self).bind fun bs hbs => ?_
    refine (ih fun a ha => h a (List.mem_cons_of_mem _ ha)).bind fun cs hcs => ?_
    exact givesAt_pure fun b hb => (List.mem_append.1 hb).elim (hbs b) (hcs b)

end GivesAt

/-- Every result that the computation succeeds with has the property. -/
def Gives (m : Rolling α) (Q : α → Prop) : Prop :=
  ∀ σ n a d, m.answer σ n = (.ok a, d) → Q a

theorem gives_pure {a : α} {Q : α → Prop} (h : Q a) : (pure a : Rolling α).Gives Q :=
  fun _ => givesAt_pure h

theorem gives_throw (h : Halt) (Q : α → Prop) : (throw h : Rolling α).Gives Q :=
  fun _ => givesAt_throw h Q

theorem Gives.bind {m : Rolling α} {f : α → Rolling β} {P : α → Prop} {Q : β → Prop}
    (hm : m.Gives P) (hf : ∀ a, P a → (f a).Gives Q) : (m >>= f).Gives Q :=
  fun σ => GivesAt.bind (hm σ) fun a ha => hf a ha σ

/-- What follows does not depend on what the first step gives. -/
theorem gives_bind {m : Rolling α} {f : α → Rolling β} {Q : β → Prop}
    (hf : ∀ a, (f a).Gives Q) : (m >>= f).Gives Q :=
  fun σ => givesAt_bind fun a => hf a σ

theorem Gives.foldlM {f : β → α → Rolling β} {I : β → Prop} {l : List α} {b : β}
    (hstep : ∀ a ∈ l, ∀ b, I b → (f b a).Gives I) (hb : I b) : (l.foldlM f b).Gives I :=
  fun σ => GivesAt.foldlM (fun a ha b hI => hstep a ha b hI σ) hb

theorem Gives.forall₂_mapM {f : α → Rolling β} {R : α → β → Prop} {l : List α}
    (h : ∀ a ∈ l, (f a).Gives (R a)) : (l.mapM f).Gives (List.Forall₂ R l) :=
  fun σ => GivesAt.forall₂_mapM fun a ha => h a ha σ

/-- A loop gives one thing for each item. -/
theorem length_of_answer_mapM {f : α → Rolling β} {l : List α} {bs : List β}
    (h : (l.mapM f).answer σ n = (.ok bs, d)) : bs.length = l.length := by
  have hboth : (l.mapM f).GivesAt σ (List.Forall₂ (fun _ _ => True) l) :=
    .forall₂_mapM fun _ _ _ _ _ _ => trivial
  exact (hboth n bs d h).length_eq.symm

theorem Gives.mapM {f : α → Rolling β} {Q : β → Prop} {l : List α}
    (h : ∀ a ∈ l, (f a).Gives Q) : (l.mapM f).Gives fun bs => ∀ b ∈ bs, Q b :=
  fun σ => GivesAt.mapM fun a ha => h a ha σ

/-! ## Properties that sequencing keeps -/

/-- A property of computations that drawing nothing has, and that a sequence
has if its steps have it. -/
structure Closed (P : ∀ ⦃α : Type⦄, Rolling α → Prop) : Prop where
  pure : ∀ {α : Type} (a : α), P (pure a : Rolling α)
  bind : ∀ {α β : Type} {m : Rolling α} {f : α → Rolling β}, P m → (∀ a, P (f a)) → P (m >>= f)

namespace Closed

variable {P : ∀ ⦃α : Type⦄, Rolling α → Prop} (hP : Closed P)

include hP

/-- Mapping is sequencing, so it is kept too. -/
theorem map (f : α → β) {m : Rolling α} (hm : P m) : P (f <$> m) := by
  rw [map_eq_pure_bind]
  exact hP.bind hm fun a => hP.pure (f a)

theorem mapM {f : α → Rolling β} {l : List α} (h : ∀ a ∈ l, P (f a)) : P (l.mapM f) := by
  induction l with
  | nil => exact hP.pure []
  | cons a l ih =>
    rw [List.mapM_cons]
    refine hP.bind (h a List.mem_cons_self) fun b => ?_
    exact hP.bind (ih fun a ha => h a (List.mem_cons_of_mem _ ha)) fun bs => hP.pure _

/-- Loops are kept as their steps are. -/
theorem flatMapM {f : α → Rolling (List β)} {l : List α} (h : ∀ a ∈ l, P (f a)) :
    P (l.flatMapM f) := by
  induction l with
  | nil => exact hP.pure []
  | cons a l ih =>
    rw [List.flatMapM_cons]
    refine hP.bind (h a List.mem_cons_self) fun b => ?_
    exact hP.bind (ih fun a ha => h a (List.mem_cons_of_mem _ ha)) fun bs => hP.pure _

theorem foldlM {f : β → α → Rolling β} {l : List α} (h : ∀ b, ∀ a ∈ l, P (f b a)) (b : β) :
    P (l.foldlM f b) := by
  induction l generalizing b with
  | nil => exact hP.pure b
  | cons a l ih =>
    rw [List.foldlM_cons]
    exact hP.bind (h b a List.mem_cons_self)
      fun c => ih (fun b a ha => h b a (List.mem_cons_of_mem _ ha)) c

end Closed

end Rolling

end DiceNotation
