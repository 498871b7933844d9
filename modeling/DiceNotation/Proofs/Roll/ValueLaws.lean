import DiceNotation.Proofs.Roll.Matches

/-!
# Laws of values

A value is stored with the result that it is the value of, while modifiers of groups
change the dice below it and the members beside it later on. A law about values
(`ValueLaw`) says what the value has to do with the shape: of every shape, when it is
made, and of dice and sums once more, when the dice below are others and the values
are made again. Then it holds all over a result, of everything that is no count of
successes by now (`ValueLaw.keeps_roll`).

In one place a value is put that no shape makes. The sole member of a group with
modifiers gets the sum of its pool, and for that either the law has to make room
(`AdmitsPools`), or there is no such group in the expression (`Node.Unpooled`).
-/

namespace DiceNotation

open Counted

/-! ## Laws -/

/-- The value of terms with operators between them, from left to right. -/
def leftFold {ω : Type} (apply : ω → Number → Number → Number) : List Result → List ω → Number
  | [], _ => .zero
  | head :: tail, ops => (ops.zip tail).foldl (fun v p => apply p.1 v p.2.value) head.value

/-- Sums are folded from the left. -/
theorem foldSum_eq_leftFold (terms : List Result) (ops : List SumOp) :
    Result.foldSum terms ops = leftFold SumOp.apply terms ops := by
  cases terms <;> rfl

/-- The only member of a group stands here. -/
def Place.IsSoleMember (place : Place) : Prop := ∃ i, place = .member i 1

theorem Place.not_isSoleMember {place : Place} (h : place.isMember = false) :
    ¬place.IsSoleMember := by
  rintro ⟨i, rfl⟩
  cases h

variable {L : Place → Shape Result → Number → Prop}

/-- A law about the value of a shape at a place. -/
structure ValueLaw (L : Place → Shape Result → Number → Prop) : Prop where
  number : ∀ value, L .apart .number value
  summed : ∀ count sides rolls, L .apart (.dice count sides rolls false) (sumTotals rolls)
  counted : ∀ count sides rolls,
    L .apart (.dice count sides rolls true) (.int (Int64.ofNat (matchedFaces rolls).card))
  sum : ∀ {terms ops}, terms.length = ops.length + 1 →
    L .apart (.sum terms ops) (leftFold SumOp.apply terms ops)
  chain : ∀ {terms ops}, terms.length = ops.length + 1 →
    L .apart (.chain terms ops) (leftFold ArithOp.apply terms ops)
  group : ∀ members, L .apart (.group members) (sumTotals members)
  function : ∀ (fn : NumFn) arg, L .apart (.function fn arg) (fn.apply arg.value)
  /-- What holds apart holds wherever the shape is put. -/
  anywhere : ∀ {shape value}, L .apart shape value → ∀ place, L place shape value
  /-- A count stays when the dice are changed. -/
  changed : ∀ {place count sides rolls rolls' value}, place.isMember = false →
    List.Forall₂ Changed rolls rolls' → L place (.dice count sides rolls true) value →
      L place (.dice count sides rolls' true) value
  /-- A sum of other terms is made again. -/
  refolded : ∀ {place terms terms' ops value}, place.isMember = false →
    terms'.length = terms.length → L place (.sum terms ops) value →
      L place (.sum terms' ops) (leftFold SumOp.apply terms' ops)

/-- The law allows a sole member to have the sum of its pool for a value. -/
def AdmitsPools (L : Place → Shape Result → Number → Prop) : Prop :=
  ∀ ⦃r : Result⦄ ⦃place : Place⦄, r.isPooled → place.IsSoleMember → L .apart r.shape r.value →
    L place r.shape (sumTotals r.pool)

namespace Result

/-- The law holds of the result, unless that is a count of successes. -/
def Keeps (L : Place → Shape Result → Number → Prop) (place : Place) (r : Result) : Prop :=
  r.outcome.success = false → L place r.shape r.value

/-- A result that kept its parts, and its value unless it counts by now. -/
structure Follows (r r' : Result) : Prop where
  shape_eq : r'.shape = r.shape
  value_eq : r'.outcome.success = false → r.outcome.success = false ∧ r'.value = r.value

theorem Follows.refl (r : Result) : r.Follows r := ⟨rfl, fun h => ⟨h, rfl⟩⟩

theorem Follows.trans {r s t : Result} (h : r.Follows s) (h' : s.Follows t) : r.Follows t where
  shape_eq := h'.shape_eq.trans h.shape_eq
  value_eq ht := by
    obtain ⟨hs, hvalue⟩ := h'.value_eq ht
    obtain ⟨hr, hvalue'⟩ := h.value_eq hs
    exact ⟨hr, hvalue.trans hvalue'⟩

/-- Another order changes nothing else. -/
theorem follows_setOrder (order : Nat) (r : Result) : r.Follows (setOrder order r) where
  shape_eq := shape_setOrder ..
  value_eq h := by
    rw [outcome_setOrder] at h
    exact ⟨h, value_setOrder ..⟩

/-- A modifier of a group takes the member out of the sum, or makes a count of
its value. -/
theorem follows_of_step {r s : Result} (h : Step r s) : r.Follows s := by
  refine ⟨h.shape_eq, fun hs => ?_⟩
  cases h with
  | discard => exact ⟨by simpa using hs, by simp [value]⟩
  | countOne delta _ =>
    rw [countOne] at hs
    split at hs
    next hsuccess =>
      rw [outcome_setValue] at hs
      exact absurd (hs.symm.trans hsuccess) (by simp)
    next => simp at hs
  | zero _ => simp at hs

/-- A changed result follows the one that it was. -/
theorem follows_of_changed {r s : Result} (h : Changed r s) : r.Follows s := by
  induction h with
  | refl => exact .refl r
  | tail _ hstep ih => exact ih.trans (follows_of_step hstep)

theorem follows_relabel (label : Option String) (r : Result) : r.Follows (r.relabel label) := by
  cases label with
  | none => exact .refl r
  | some label =>
    refine ⟨shape_relabel .., fun h => ⟨?_, ?_⟩⟩
    · simpa [relabel, setLabel] using h
    · simp [relabel, setLabel, value]

/-- A pool that was put back and refreshed is one still. -/
theorem isPooled_refill_refresh (r : Result) (supply : List RolledDie) :
    (refill r supply).1.refresh.isPooled = r.isPooled := by
  obtain ⟨outcome, shape⟩ := r
  cases shape <;> rfl

end Result

/-! ## Results -/

namespace ValueLaw

variable (hL : ValueLaw L) {r r' : Result}

include hL

/-- A result that follows one that keeps the law keeps it. -/
theorem follow (h : r.Everywhere (Result.Keeps L) .apart) (hr : r.Follows r') (place : Place) :
    r'.Everywhere (Result.Keeps L) place := by
  refine h.move hr.shape_eq fun hsuccess => ?_
  obtain ⟨hbefore, hvalue⟩ := hr.value_eq hsuccess
  rw [hr.shape_eq, hvalue]
  exact hL.anywhere (h.here hbefore) place

/-- **Refreshing makes the values again**, when dice were changed in the pool. -/
theorem refill_refresh (h : r.Everywhere (Result.Keeps L) .apart) {dice : List RolledDie}
    (hdice : List.Forall₂ Changed r.pool dice) :
    (r.refill dice).1.refresh.Everywhere (Result.Keeps L) .apart := by
  refine h.refill_refresh (fun hplace hlength h hsuccess => ?_)
    (fun {place _ _ _ _ _ matched} hplace hrolls h hsuccess => ?_) rfl ?_
  · rw [Result.value, Result.outcome, foldSum_eq_leftFold]
    exact hL.refolded hplace hlength (h hsuccess)
  · cases matched with
    | true => exact hL.changed hplace hrolls (h hsuccess)
    | false => exact hL.anywhere (hL.summed ..) place
  · rwa [hdice.length_eq, List.take_length]

/-- A sole member with changed dice in its pool, and their sum for a value. -/
theorem setValue_pool (hpools : AdmitsPools L) (h : r.Everywhere (Result.Keeps L) .apart)
    (hpooled : r.isPooled) {dice : List RolledDie} (hdice : List.Forall₂ Changed r.pool dice)
    (i : Nat) :
    (setValue (sumTotals dice) (r.refill dice).1.refresh).Everywhere (Result.Keeps L)
      (.member i 1) := by
  have hr := hL.refill_refresh h hdice
  have hpool := Result.pool_refill_refresh hdice.length_eq.symm
  rw [← Result.isPooled_refill_refresh r dice] at hpooled
  -- from here on only the refilled member matters, and that its pool is `dice`
  generalize (r.refill dice).1.refresh = r' at hr hpool hpooled
  subst hpool
  refine hr.move (Result.shape_setValue ..) fun hsuccess => ?_
  rw [Result.outcome_setValue] at hsuccess
  rw [Result.shape_setValue, Result.value, Result.outcome_setValue]
  exact hpools hpooled ⟨i, rfl⟩ (hr.here hsuccess)

end ValueLaw

/-! ## Pooling -/

/-- The form is a group with a single member and with modifiers. -/
def Form.isPooling {ε : Type} : Form ε → Bool
  | .group _ [] (_ :: _) => true
  | _ => false

@[simp] theorem Form.isPooling_map {ε φ : Type} (f : ε → φ) (form : Form ε) :
    (form.map f).isPooling = form.isPooling := by
  match form with
  | .group _ [] (_ :: _) | .group _ [] [] | .group _ (_ :: _) _ => rfl
  | .number _ | .inline _ | .die _ | .sum .. | .chain .. | .function .. => rfl

/-- No group with a single member has modifiers, in all that a roll keeps. -/
inductive Node.Unpooled : Node → Prop
  | term {form : Form Node} {label : Option String} :
    form.isPooling = false → (∀ n ∈ form.terms, n.Unpooled) → Unpooled (.term form label)
  | unsupported : Unpooled .unsupported

/-! ## Layers -/

/-- The roll of an expression gives only results that keep the law. -/
abbrev KeepsLaw (L : Place → Shape Result → Number → Prop) (m : Rolling Result) : Prop :=
  m.Gives (Result.Everywhere (Result.Keeps L) .apart)

namespace ValueLaw

variable {σ : Setting} {n d : Nat} (hL : ValueLaw L)

include hL

/-- Dice keep the law if the expressions in them do. -/
theorem keeps_dice {spec : DieSpec (Rolling Result)} (hcount : KeepsLaw L spec.count)
    (hsides : ∀ x ∈ spec.sides.parts, KeepsLaw L x) : KeepsLaw L spec.roll := by
  intro σ n r d h
  obtain ⟨count, e₁, hc, k, e₂, -, sides, kind, e₃, hs, rolls, e₄, hrolls, h⟩ :=
    DieSpec.answer_roll_eq_ok.1 h
  have hunmatched := gives_rollDice_unmatched spec kind k _ _ _ _ hrolls
  obtain ⟨rolls, matched, rfl⟩ := DieSpec.exists_of_answer_conclude hunmatched h
  refine .intro (fun _ => ?_) ?_
  · cases matched with
    | true => exact hL.counted count sides rolls
    | false => exact hL.summed count sides rolls
  · have hcount := hcount _ _ _ _ hc
    have hfaces := Sides.gives_resolve hsides _ _ _ _ hs
    simpa [Result.shape, Shape.places] using ⟨hcount, hfaces⟩

/-- A group keeps it if its members do, and if the law admits pools or none is modified. -/
theorem keeps_group {members : List (Rolling Result)} {mods : List (Modifier (Rolling Result))}
    (hpools : AdmitsPools L ∨ (members.length = 1 → mods = []))
    (hmembers : ∀ x ∈ members, KeepsLaw L x) : KeepsLaw L (rollGroup members mods) := by
  intro σ n r d h
  obtain ⟨results, e, hresults, h⟩ := answer_rollGroup_eq_ok h
  have hlength : results.length = members.length := Rolling.length_of_answer_mapM hresults
  have hresults := Rolling.Gives.mapM (f := id) hmembers σ n results e hresults
  have hnumbered : ∀ m ∈ numbered results, m.Everywhere (Result.Keeps L) .apart := by
    intro m hm
    obtain ⟨r, hr, hm⟩ :=
      exists_of_forall₂_of_mem (forall₂_numbered Result.follows_setOrder results) hm
    exact hL.follow (hresults r hr) hm .apart
  rcases h with ⟨member, dice, hsole, hmods, hpooled, hdice, rfl⟩ | ⟨-, items, hitems, rfl⟩
  · -- the modifiers went through the sole member into its dice
    obtain ⟨first, rfl, -⟩ := exists_of_numbered_eq_singleton hsole
    have hpools := hpools.resolve_right fun h => hmods (h hlength.symm)
    have hmember := hnumbered member (by simp [hsole])
    refine .intro (fun _ => hL.group _) ?_
    simpa [Result.group, Result.shape, Shape.places] using
      hL.setValue_pool hpools hmember hpooled (changed_settle_foldlM hdice) 0
  · -- they stopped at the members
    refine .of_parts (fun _ => hL.group _) fun t ht place => ?_
    obtain ⟨m, hm, hchanged⟩ := exists_of_forall₂_of_mem (changed_settle_foldlM hitems) ht
    exact hL.follow (hnumbered m hm) (Result.follows_of_changed hchanged) place

section Chains

variable {ω : Type} {apply : ω → Number → Number → Rolling Number}
  {f : ω → Number → Number → Number} {order : Nat} {value total : Number} {terms : List Result}
  {tail : List (Link ω (Rolling Result))}

/-- The value of a chain is folded from the values of its terms. -/
theorem keeps_rollLinks
    (happly : ∀ {op x y v σ n d}, (apply op x y).answer σ n = (.ok v, d) → v = f op x y)
    (htail : ∀ l ∈ tail, KeepsLaw L l.term)
    (h : (rollLinks apply order value tail).answer σ n = (.ok (total, terms), d)) :
    terms.length = tail.length ∧
      total = ((tail.map Link.op).zip terms).foldl (fun v p => f p.1 v p.2.value) value ∧
      ∀ t ∈ terms, ∀ place, t.Everywhere (Result.Keeps L) place := by
  induction tail generalizing order value n terms with
  | nil =>
    cases h
    exact ⟨rfl, rfl, by simp⟩
  | cons link tail ih =>
    obtain ⟨r, e₁, hr, v, e₂, hv, rest, hrest, rfl⟩ := answer_rollLinks_cons h
    obtain ⟨hlength, htotal, hterms⟩ :=
      ih (fun l hl => htail l (List.mem_cons_of_mem _ hl)) hrest
    have hr := htail link List.mem_cons_self _ _ _ _ hr
    refine ⟨by simp [hlength], ?_, ?_⟩
    · simp [htotal, happly hv]
    · exact List.forall_mem_cons.2 ⟨hL.follow hr (Result.follows_setOrder ..), hterms⟩

/-- The terms of a chain keep the law wherever they stand, and the value is their
fold, if the operators compute what the fold takes them to compute. -/
theorem keeps_chain
    (happly : ∀ {op x y v σ n d}, (apply op x y).answer σ n = (.ok v, d) → v = f op x y)
    {head : Rolling Result} (hhead : KeepsLaw L head) (htail : ∀ l ∈ tail, KeepsLaw L l.term)
    (h : (rollChain apply head tail).answer σ n = (.ok (total, terms), d)) :
    terms.length = (tail.map Link.op).length + 1 ∧
      total = leftFold f terms (tail.map Link.op) ∧
      ∀ t ∈ terms, ∀ place, t.Everywhere (Result.Keeps L) place := by
  obtain ⟨first, e, rest, hfirst, hrest, rfl⟩ := answer_rollChain_eq_ok h
  obtain ⟨hlength, htotal, hterms⟩ := hL.keeps_rollLinks happly htail hrest
  have hfirst := hhead _ _ _ _ hfirst
  refine ⟨by simp [hlength], htotal, List.forall_mem_cons.2 ⟨fun place => ?_, hterms⟩⟩
  exact hL.follow hfirst (.refl first) place

end Chains

/-- **One layer**: what it makes of parts that keep the law keeps it. -/
theorem keeps_form {form : Form (Rolling Result)} (hpools : AdmitsPools L ∨ form.isPooling = false)
    (h : ∀ x ∈ form.terms, KeepsLaw L x) : KeepsLaw L form.roll := by
  cases form with
  | number value =>
    exact Rolling.gives_pure (.of_parts (fun _ => hL.number value)
      (by simp [Result.number, Result.shape, Shape.parts]))
  | inline expr => exact h expr List.mem_cons_self
  | die spec =>
    exact hL.keeps_dice (h _ List.mem_cons_self) fun x hx => h x (List.mem_cons_of_mem _ hx)
  | group first rest mods =>
    refine hL.keeps_group (hpools.imp id fun hpooling hsole => ?_) h
    -- a sole member without modifiers is no pool
    obtain rfl : rest = [] := by simpa using hsole
    cases mods with
    | nil => rfl
    | cons => cases hpooling
  | sum head tail =>
    intro σ n r d hr
    obtain ⟨⟨total, terms⟩, e, hchain, hr⟩ := Rolling.answer_bind_eq_ok.1 hr
    cases hr
    obtain ⟨hlength, rfl, hterms⟩ := hL.keeps_chain (f := SumOp.apply) (fun h => by cases h; rfl)
      (h _ List.mem_cons_self)
      (fun l hl => h _ (List.mem_cons_of_mem _ (List.mem_map_of_mem hl))) hchain
    exact .of_parts (fun _ => hL.sum hlength) hterms
  | chain head tail =>
    intro σ n r d hr
    obtain ⟨⟨total, terms⟩, e, hchain, hr⟩ := Rolling.answer_bind_eq_ok.1 hr
    cases hr
    obtain ⟨hlength, rfl, hterms⟩ := hL.keeps_chain (f := ArithOp.apply)
      (fun h => (ArithOp.answer_rollApply h).1) (h _ List.mem_cons_self)
      (fun l hl => h _ (List.mem_cons_of_mem _ (List.mem_map_of_mem hl))) hchain
    exact .of_parts (fun _ => hL.chain hlength) hterms
  | function fn arg =>
    refine (h arg List.mem_cons_self).bind fun a ha => Rolling.gives_pure ?_
    refine .intro (fun _ => hL.function fn a) ?_
    simpa [Result.function, Result.shape, Shape.places] using ha

/-! ## Expressions -/

/-- **A law of values holds all over a result**, if it makes room for the values of
pools or if none is made. -/
theorem keeps_roll (node : Node) (hpools : AdmitsPools L ∨ node.Unpooled) :
    KeepsLaw L node.roll := by
  induction node using Node.induction with
  | term form label ih =>
    rw [Node.roll_term]
    have hform : KeepsLaw L (form.map Node.roll).roll := by
      refine hL.keeps_form (hpools.imp id fun h => ?_) ?_
      · cases h with
        | term hpooling => rwa [Form.isPooling_map]
      · simp only [Form.terms_map, List.forall_mem_map]
        intro t ht
        refine ih t (Form.mem_parts_of_mem_terms ht) (hpools.imp id fun h => ?_)
        cases h with
        | term _ hterms => exact hterms t ht
    exact hform.bind fun r hr =>
      Rolling.gives_pure (hL.follow hr (Result.follows_relabel label r) .apart)
  | unsupported =>
    rw [Node.roll_unsupported]
    exact Rolling.gives_throw _ _

end ValueLaw

end DiceNotation
