import DiceNotation.Proofs.Roll.Again
import DiceNotation.Proofs.Roll.Items
import DiceNotation.Proofs.Roll.Layers
import DiceNotation.Proofs.Roll.Pool

/-!
# Laws of dice

Whatever an expression is, the dice of one specification are only rolled, rolled
again, marked, matched, sorted, selected and counted. So a law that these keep
(`DiceLaw`) is one of the dice of every specification in every result, however
deep it stands in counts, sides, terms and members (`DiceLaw.obeying_roll`). One
that a match would break holds until then (`TableLaw.gives_rollDice`).

With it goes what needs no law: each part of a result has the order of its place,
and counts unless it is the member of a group (`Result.Obeys`). The dice in the
pool of a member are the one thing that is reached from afar: the group changes
them after the laws held of them, one by one and where they lie.
-/

namespace DiceNotation

open Counted Relation

variable {D : List RolledDie → Prop}

/-- A law about the dice of one specification that is kept while they are rolled
and modified. -/
structure TableLaw (D : List RolledDie → Prop) : Prop where
  rolled : ∀ (kind : DieType) (face : Nat → Int64) (n : Nat),
    D ((List.range n).map fun i => .ofRoll kind (face i) i)
  again : ∀ (mechanic : Mechanic) (kind : DieType) (trigger : Condition Number)
    {rolls : List RolledDie}, D rolls → (mechanic.apply kind trigger rolls).Gives D
  changed : ∀ {rolls rolls' : List RolledDie}, List.Forall₂ Changed rolls rolls' →
    D rolls → D rolls'
  marked : ∀ (condition : Condition Number) (mark : Critical) {rolls : List RolledDie},
    D rolls → D (markCritical condition mark rolls)

/-- A law that matching and sorting keep as well, so by everything that is done to
dice. -/
structure DiceLaw (D : List RolledDie → Prop) : Prop extends TableLaw D where
  matched : ∀ (faces : List Int64) {rolls : List RolledDie}, D rolls → D (markMatched faces rolls)
  sorted : ∀ (order : SortOrder) {rolls : List RolledDie}, D rolls → D (order.apply rolls)

/-- The result has the order of its place, counts unless it is the member of a
group, and the law holds of the dice that lie in it. -/
structure Result.Obeys (D : List RolledDie → Prop) (place : Place) (r : Result) : Prop where
  order_eq : r.outcome.order = place.order
  valid : place.isMember = false → r.outcome.valid = true
  dice : D r.shape.rolls

/-! ## Dice of one specification -/

/-- A law about one die is one about all the dice of a specification. -/
theorem DieLaw.tableLaw {Q : RolledDie → Prop} (hQ : DieLaw Q)
    (hchanged : ∀ {d d' : RolledDie}, Changed d d' → Q d → Q d')
    (hmarked : ∀ {d : RolledDie} (mark : Option Critical), Q d → Q (d.setCritical mark)) :
    TableLaw fun rolls => ∀ d ∈ rolls, Q d where
  rolled kind face n d hd := by
    obtain ⟨i, -, rfl⟩ := List.mem_map.1 hd
    exact hQ.rolled ..
  again mechanic _ _ _ h := hQ.gives_mechanic mechanic h
  changed hrolls h d' hd' := by
    obtain ⟨d, hd, hchange⟩ := exists_of_forall₂_of_mem hrolls hd'
    exact hchanged hchange (h d hd)
  marked condition mark rolls h d' hd' := by
    obtain ⟨d, hd, rfl⟩ := List.mem_map.1 hd'
    split
    · exact hmarked _ (h d hd)
    · exact h d hd

namespace TableLaw

variable (hD : TableLaw D)

include hD

theorem nil : D [] := hD.rolled .fate (fun _ => 0) 0

/-- Dice that are rolled together obey the law. -/
theorem gives_rollMany (kind : DieType) (n : Nat) : (kind.rollMany n).Gives D := by
  intro σ k rolls d h
  rw [Rolling.answer_rollMany] at h
  split at h <;> cases h
  exact hD.rolled kind _ n

/-- Modifiers of dice keep the law. -/
theorem gives_applyToDice (m : Modifier (Rolling Result)) (kind : DieType)
    {rolls : List RolledDie} (h : D rolls) : (m.applyToDice kind rolls).Gives D := by
  match m with
  | .select .. =>
    exact Rolling.gives_bind fun _ => Rolling.gives_pure (hD.changed (changed_selectItems ..) h)
  | .test .success _ | .test .failure _ =>
    exact Rolling.gives_bind fun _ => Rolling.gives_pure (hD.changed (changed_convert ..) h)
  | .test .crit _ | .test .critfail _ =>
    exact Rolling.gives_bind fun _ => Rolling.gives_pure (hD.marked _ _ h)
  | .again mechanic (some _) => exact Rolling.gives_bind fun _ => hD.again mechanic kind _ h
  | .again mechanic none => exact hD.again mechanic kind _ h
  | .unsupported => exact Rolling.gives_throw _ _

theorem gives_foldlM (mods : List (Modifier (Rolling Result))) (kind : DieType)
    {rolls : List RolledDie} (h : D rolls) :
    (mods.foldlM (Modifier.applyToDice kind) rolls).Gives D :=
  Rolling.Gives.foldlM (fun m _ _ h => hD.gives_applyToDice m kind h) h

/-- **From the first roll to the last modifier**, the dice keep the law. -/
theorem gives_rollDice (spec : DieSpec (Rolling Result)) (kind : DieType) (n : Nat) :
    (spec.rollDice kind n).Gives D := by
  refine (hD.gives_rollMany kind n).bind fun rolls h => ?_
  refine (hD.gives_foldlM spec.mods kind h).bind fun rolls h => ?_
  refine (hD.gives_foldlM spec.targets kind h).bind fun rolls h => ?_
  exact Rolling.gives_pure (hD.changed (changed_settle spec.targets rolls) h)

end TableLaw

/-- Sorting and settling keep it. -/
theorem DiceLaw.arrange (hD : DiceLaw D) {ε : Type} (spec : DieSpec ε) {rolls : List RolledDie}
    (h : D rolls) : D (spec.arrange rolls) := by
  rw [DieSpec.arrange]
  split
  · exact hD.sorted _ h
  · exact h

/-! ## Pools -/

namespace Result

/-- **Other dice in the pool**: if each comes from the one that lay in its place, a
law that dice and sums keep when their values are made again still holds all over,
each result standing where it stood. -/
theorem Everywhere.refill_refresh {P : Place → Result → Prop}
    (hsum : ∀ {place : Place} {outcome : Outcome} {terms terms' : List Result} {ops : List SumOp},
      place.isMember = false → terms'.length = terms.length →
        P place (mk outcome (.sum terms ops)) →
        P place (mk { outcome with value := foldSum terms' ops } (.sum terms' ops)))
    (hdice : ∀ {place : Place} {outcome : Outcome} {count : Result} {sides : Sides Result}
      {rolls rolls' : List RolledDie} {matched : Bool}, place.isMember = false →
      List.Forall₂ Changed rolls rolls' → P place (mk outcome (.dice count sides rolls matched)) →
        P place (mk (if matched then outcome else { outcome with value := sumTotals rolls' })
          (.dice count sides rolls' matched)))
    {r : Result} {place : Place} (hplace : place.isMember = false) (h : r.Everywhere P place)
    {supply : List RolledDie}
    (hsupply : List.Forall₂ Changed r.pool (supply.take r.pool.length)) :
    (refill r supply).1.refresh.Everywhere P place := by
  induction r using sum_induction generalizing supply place with
  | sum outcome terms ops ih =>
    rw [pool] at hsupply
    have hterms := forall₂_refillAll_related hsupply
    rw [refill, refresh, refreshAll_eq_map]
    refine .intro (hsum hplace (by rw [List.length_map, hterms.length_eq]) h.here) fun q hq => ?_
    obtain ⟨i, hi, rfl⟩ := List.mem_mapIdx.1 hq
    rw [List.length_map] at hi
    -- the term that stood here, and the part of the dice that it takes
    obtain ⟨hi', s, hs, heq⟩ := getElem_of_forall₂ hterms hi
    have hterm := h.inside (.term i, terms[i]) (List.mem_mapIdx.2 ⟨i, hi', rfl⟩)
    simp only [List.getElem_map, heq]
    exact ih terms[i] (List.getElem_mem hi') rfl hterm hs
  | other outcome shape hshape =>
    cases shape with
    | sum terms ops => exact absurd rfl (hshape terms ops)
    | dice count sides rolls matched =>
      rw [pool] at hsupply
      rw [refill, refresh]
      exact .intro (hdice hplace hsupply h.here) h.inside
    | number | chain | group | function => exact h.move rfl h.here

/-- A law of dice is such a law. -/
theorem Everywhere.refill_refresh_obeys (hD : DiceLaw D) {r : Result} {place : Place}
    (hplace : place.isMember = false) (h : r.Everywhere (Obeys D) place) {supply : List RolledDie}
    (hsupply : List.Forall₂ Changed r.pool (supply.take r.pool.length)) :
    (refill r supply).1.refresh.Everywhere (Obeys D) place := by
  refine h.refill_refresh (fun _ _ h => ⟨h.order_eq, h.valid, h.dice⟩) (fun _ hrolls h => ?_)
    hplace hsupply
  refine ⟨?_, ?_, hD.changed hrolls h.dice⟩
  · simpa [Result.outcome, apply_ite Outcome.order] using h.order_eq
  · simpa [Result.outcome, apply_ite Outcome.valid] using h.valid

end Result

/-! ## Layers -/

/-- The roll gives only results that obey the law, all over. -/
abbrev Obeying (D : List RolledDie → Prop) (m : Rolling Result) : Prop :=
  m.Gives (Result.Everywhere (Result.Obeys D) .apart)

namespace Result

/-- A specification obeys the law if its count, its sides and its dice do. -/
theorem everywhere_obeys_dice {outcome : Outcome} {count : Result} {sides : Sides Result}
    {rolls : List RolledDie} {matched : Bool} (horder : outcome.order = 0)
    (hvalid : outcome.valid = true) (hcount : count.Everywhere (Obeys D) .apart)
    (hsides : ∀ f ∈ sides.parts, f.Everywhere (Obeys D) .apart) (hrolls : D rolls) :
    (mk outcome (.dice count sides rolls matched)).Everywhere (Obeys D) .apart := by
  refine .intro ⟨horder, fun _ => hvalid, hrolls⟩ ?_
  simpa [shape, Shape.places] using ⟨hcount, hsides⟩

/-- A part that is put elsewhere, with the order of its new place. -/
theorem Everywhere.setOrder_obeys {r : Result} (h : r.Everywhere (Obeys D) .apart)
    (place : Place) : (setOrder place.order r).Everywhere (Obeys D) place := by
  refine h.move (shape_setOrder ..) ⟨by simp, fun _ => ?_, by simpa using h.here.dice⟩
  simpa using h.here.valid rfl

/-- The members of a group, each with its place in it for an order. -/
theorem everywhere_obeys_numbered {results : List Result}
    (h : ∀ r ∈ results, r.Everywhere (Obeys D) .apart) {i : Nat}
    (hi : i < (numbered results).length) (size : Nat) :
    (numbered results)[i].Everywhere (Obeys D) (.member i size) := by
  have hi' : i < results.length := by simpa [numbered] using hi
  have hnumbered : (numbered results)[i] = setOrder i results[i] := by simp [numbered]
  rw [hnumbered]
  exact (h results[i] (List.getElem_mem hi')).setOrder_obeys (.member i size)

/-- A member stays lawful when the modifiers of its group change it. -/
theorem Everywhere.obeys_changed {r r' : Result} {i size : Nat}
    (h : r.Everywhere (Obeys D) (.member i size)) (hr : Changed r r') :
    r'.Everywhere (Obeys D) (.member i size) := by
  refine h.move hr.shape_eq ⟨hr.order_eq.trans h.here.order_eq, by simp, ?_⟩
  rw [hr.shape_eq]
  exact h.here.dice

/-- Relabelling a result changes none of its dice. -/
theorem Everywhere.relabel_obeys {r : Result} (h : r.Everywhere (Obeys D) .apart)
    (label : Option String) : (r.relabel label).Everywhere (Obeys D) .apart := by
  cases label with
  | none => exact h
  | some label =>
    refine h.move (shape_setOutcome ..) ⟨?_, fun _ => ?_, ?_⟩
    · simpa [relabel, setLabel] using h.here.order_eq
    · simpa [relabel, setLabel] using h.here.valid rfl
    · simpa [relabel, setLabel] using h.here.dice

end Result

namespace DiceLaw

variable (hD : DiceLaw D)

section Chains

variable {ω : Type} {apply : ω → Number → Number → Rolling Number}
  {tail : List (Link ω (Rolling Result))}

/-- The terms after the first have the places of their operators for orders. -/
theorem gives_rollLinks (htail : ∀ l ∈ tail, Obeying D l.term) (order : Nat) (value : Number) :
    (rollLinks apply order value tail).Gives fun p => ∀ i (hi : i < p.2.length),
      p.2[i].Everywhere (Result.Obeys D) (.term (order + i + 1)) := by
  induction tail generalizing order value with
  | nil => exact Rolling.gives_pure (by simp)
  | cons link tail ih =>
    rintro σ n ⟨total, terms⟩ d h
    obtain ⟨r, e₁, hr, v, e₂, -, rest, hrest, rfl⟩ := answer_rollLinks_cons h
    have hr := htail link List.mem_cons_self _ _ _ _ hr
    have hrest := ih (fun l hl => htail l (List.mem_cons_of_mem _ hl)) _ _ _ _ _ _ hrest
    intro i hi
    cases i with
    | zero => exact hr.setOrder_obeys (.term (order + 1))
    | succ i => simpa [Nat.add_assoc, Nat.add_comm 1] using hrest i (by simpa using hi)

/-- The terms of a chain obey the law, each in its place. -/
theorem gives_rollChain {head : Rolling Result} (hhead : Obeying D head)
    (htail : ∀ l ∈ tail, Obeying D l.term) :
    (rollChain apply head tail).Gives fun p => ∀ i (hi : i < p.2.length),
      p.2[i].Everywhere (Result.Obeys D) (.term i) := by
  rintro σ n ⟨total, terms⟩ d h
  obtain ⟨first, e, rest, hfirst, hrest, rfl⟩ := answer_rollChain_eq_ok h
  have hfirst := hhead _ _ _ _ hfirst
  have hrest := gives_rollLinks htail _ _ _ _ _ _ hrest
  intro i hi
  cases i with
  | zero =>
    exact hfirst.move rfl ⟨hfirst.here.order_eq, fun _ => hfirst.here.valid rfl, hfirst.here.dice⟩
  | succ i => simpa using hrest i (by simpa using hi)

end Chains

include hD

/-- Dice obey the law if the expressions in them do. -/
theorem obeying_dice {spec : DieSpec (Rolling Result)} (hcount : Obeying D spec.count)
    (hsides : ∀ x ∈ spec.sides.parts, Obeying D x) : Obeying D spec.roll := by
  intro σ n r d h
  obtain ⟨count, e₁, hc, k, e₂, -, sides, kind, e₃, hs, rolls, e₄, hrolls, h⟩ :=
    DieSpec.answer_roll_eq_ok.1 h
  have hcount := hcount _ _ _ _ hc
  have hsides := Sides.gives_resolve hsides _ _ _ _ hs
  have hrolls := hD.gives_rollDice spec kind k _ _ _ _ hrolls
  rcases DieSpec.answer_conclude_eq_ok h with ⟨-, -, rfl⟩ | ⟨m, faces, -, -, rfl⟩
  · exact Result.everywhere_obeys_dice rfl rfl hcount hsides (hD.arrange spec hrolls)
  · have hmatched := hD.arrange spec (hD.matched faces hrolls)
    split
    · exact Result.everywhere_obeys_dice rfl rfl hcount hsides hmatched
    · exact Result.everywhere_obeys_dice rfl rfl hcount hsides hmatched

/-- A result without dice of its own, which was made just now, obeys the law if
its parts do. -/
theorem everywhere_of_places {value : Number} {shape : Shape Result} (hrolls : shape.rolls = [])
    (h : ∀ q ∈ shape.places, q.2.Everywhere (Result.Obeys D) q.1) :
    (Result.mk { value := value } shape).Everywhere (Result.Obeys D) .apart := by
  refine .intro ⟨rfl, fun _ => rfl, ?_⟩ h
  rw [Result.shape, hrolls]
  exact hD.nil

/-- A group obeys the law if its members do. -/
theorem everywhere_group {members : List Result}
    (h : ∀ i (hi : i < members.length),
      members[i].Everywhere (Result.Obeys D) (.member i members.length)) :
    (Result.group members).Everywhere (Result.Obeys D) .apart := by
  refine hD.everywhere_of_places rfl fun q hq => ?_
  obtain ⟨i, hi, rfl⟩ := List.mem_mapIdx.1 hq
  exact h i hi

/-- A roll of a group obeys it if the rolls of its members do. -/
theorem obeying_group {members : List (Rolling Result)} {mods : List (Modifier (Rolling Result))}
    (hmembers : ∀ x ∈ members, Obeying D x) : Obeying D (rollGroup members mods) := by
  intro σ n r d h
  obtain ⟨results, e, hresults, h⟩ := answer_rollGroup_eq_ok h
  have hresults := Rolling.Gives.mapM hmembers _ _ _ _ hresults
  rcases h with ⟨member, dice, hsole, -, -, hdice, rfl⟩ | ⟨-, items, hitems, rfl⟩
  · -- the dice of the pool were changed, and the member was given their sum
    have hchanged := changed_settle_foldlM hdice
    obtain ⟨first, rfl, rfl⟩ := exists_of_numbered_eq_singleton hsole
    have hmember := (hresults first List.mem_cons_self).setOrder_obeys .apart
    have htaken : List.Forall₂ Changed (setOrder 0 first).pool
        ((settle mods dice).take (setOrder 0 first).pool.length) := by
      rwa [hchanged.length_eq, List.take_length]
    have hrefilled := hmember.refill_refresh_obeys hD rfl htaken
    refine hD.everywhere_group fun i hi => ?_
    obtain rfl : i = 0 := by simpa using hi
    refine hrefilled.move (Result.shape_setValue ..) ⟨?_, by simp, ?_⟩
    · simpa using hrefilled.here.order_eq
    · simpa using hrefilled.here.dice
  · have hchanged := changed_settle_foldlM hitems
    refine hD.everywhere_group fun i hi => ?_
    obtain ⟨hi', hitem⟩ := getElem_of_forall₂ hchanged hi
    exact (Result.everywhere_obeys_numbered hresults hi' _).obeys_changed hitem

/-- **One layer**: its result obeys the law if those of its parts do. -/
theorem obeying_form {form : Form (Rolling Result)} (h : ∀ x ∈ form.terms, Obeying D x) :
    Obeying D form.roll := by
  cases form with
  | number value => exact Rolling.gives_pure (hD.everywhere_of_places rfl (by simp [Shape.places]))
  | inline expr => exact h expr List.mem_cons_self
  | die spec =>
    exact hD.obeying_dice (h _ List.mem_cons_self) fun x hx => h x (List.mem_cons_of_mem _ hx)
  | group first rest mods => exact hD.obeying_group h
  | sum head tail | chain head tail =>
    have htail : ∀ l ∈ tail, Obeying D l.term :=
      fun l hl => h _ (List.mem_cons_of_mem _ (List.mem_map_of_mem hl))
    refine (gives_rollChain (h _ List.mem_cons_self) htail).bind fun p hp => ?_
    refine Rolling.gives_pure (hD.everywhere_of_places rfl fun q hq => ?_)
    obtain ⟨i, hi, rfl⟩ := List.mem_mapIdx.1 hq
    exact hp i hi
  | function fn arg =>
    refine (h arg List.mem_cons_self).bind fun r hr => ?_
    exact Rolling.gives_pure (hD.everywhere_of_places rfl (by simpa [Shape.places] using hr))

/-! ## Expressions -/

/-- **A law of dice holds all over a result**, and every part of the result is
where its order says, and counts unless a group may have taken it out. -/
theorem obeying_roll (node : Node) : Obeying D node.roll := by
  refine Node.fold_induction (P := Obeying D) (fun form label hparts => ?_) ?_ node
  · have hform := hD.obeying_form fun x hx => hparts x (Form.mem_parts_of_mem_terms hx)
    exact hform.bind fun r hr => Rolling.gives_pure (hr.relabel_obeys label)
  · exact Rolling.gives_throw _ _

end DiceLaw

end DiceNotation
