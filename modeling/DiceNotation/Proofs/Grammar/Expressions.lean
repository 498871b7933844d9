import DiceNotation.Proofs.Grammar.Spans
import DiceNotation.Proofs.Grammar.Steps

/-!
# Through the grammar

Every rule of the grammar keeps what steps keep, and gives what the tokens say that it takes
(`Parser.Coupling.Keeps`, `Spans`). There is one lemma a rule, named after it, and it holds of
any two readings that a coupling relates: what is read, where it is refused and what it
depends on are cases of it.

In brackets each reading goes on with a parser of its own (`Parser.Coupling.Within`). A rule
of which a token has to touch the one before is read behind a token (`0 < i`), and where an
operand may be missing nothing may touch that token unseen (`Parser.Coupling.Clear`).
-/

namespace DiceNotation

open Token (Kind)
open Cursor (place)

variable {ts : List Token} {finish i j m : Nat}

/-! ## Tokens that were looked at -/

section Look

variable {kind : Kind} {text : String} {touches : Bool}

/-- What is seen is a token of the text. -/
theorem Cursor.exists_token {s : Sight} (h : (place ts finish i).sight = some s) :
    ∃ t, ts[i]? = some t ∧ t.kind = s.kind ∧ t.text = s.text := by
  rw [sight_place] at h
  obtain ⟨t, ht, rfl⟩ := Option.map_eq_some_iff.1 h
  exact ⟨t, ht, rfl, rfl⟩

/-- A token that is seen and is no literal says nothing. -/
theorem Spans.of_shows (h : (place ts finish i).Shows kind) (hkind : kind.isPlain) :
    Spans ts i (i + 1) [] := by
  obtain ⟨t, ht, rfl⟩ := Option.map_eq_some_iff.1 (Cursor.shows_place.1 h)
  exact .word ht hkind

/-- A token that was read as an integer says that integer, or its negative behind a sign. -/
theorem Spans.of_integer {n : Int64}
    (h : (place ts finish i).sight = some ⟨.integer, text, touches⟩)
    (hn : Parser.integerValue? text = some n) (negative : Bool) :
    Spans ts i (i + 1) [.int (if negative then -n else n)] := by
  obtain ⟨t, ht, hkind, rfl⟩ := Cursor.exists_token h
  exact .integer ht hkind hn negative

/-- So does a token that was read as a decimal. -/
theorem Spans.of_decimal {x : Double}
    (h : (place ts finish i).sight = some ⟨.decimal, text, touches⟩)
    (hx : Double.ofText? text = some x) (negative : Bool) :
    Spans ts i (i + 1) [.number (.float (if negative then -x else x))] := by
  obtain ⟨t, ht, hkind, rfl⟩ := Cursor.exists_token h
  exact .decimal ht hkind hx negative

end Look

namespace Parser

/-- A token at least is taken, and what is taken says the expression. -/
def Says (ts : List Token) (i : Nat) (n : Node) (j : Nat) : Prop := i < j ∧ Spans ts i j [n]

namespace Coupling

variable {R : Coupling ts finish}

/-- What stands in brackets from here on is read by these two. -/
def Within (R : Coupling ts finish) (i : Nat) (nested nested' : Parser Node) : Prop :=
  ∀ j, i < j → R.Keeps 1 j nested nested' (Says ts j)

/-- What stands in brackets further on is read by the same two. -/
theorem Within.forward {nested nested' : Parser Node} (h : R.Within i nested nested')
    (hj : i ≤ j) : R.Within j nested nested' :=
  fun k hk => h k (Nat.lt_of_le_of_lt hj hk)

/-- Behind a token that an operand may follow nothing touches it unseen. -/
theorem Clear.of_shows {kind : Kind} (h : (place ts finish i).Shows kind)
    (hkind : kind ∈ Kind.openEnded) : R.Clear (i + 1) :=
  fun _ _ => R.loose_of_sees h hkind

namespace Keeps

/-! ## Numbers -/

/-- The digits say a number, and a sign that was taken before them makes it negative. -/
theorem magnitude (negative : Bool) :
    R.Keeps m i (magnitude negative) (magnitude negative) (Says ts i) := by
  refine look ?_
  split
  · next hs =>
    have hkind := Cursor.shows_of_sight hs
    split
    · next n hn => exact skip hkind (pure (.of_integer hs hn negative))
    · exact refuse hkind (.inl rfl)
  · next hs =>
    have hkind := Cursor.shows_of_sight hs
    split
    · next x hx => exact skip hkind (pure (.of_decimal hs hx negative))
    · exact refuse hkind (.inr rfl)
  · next hinteger hdecimal =>
    refine unexpected_peek rfl fun kind hkind hmem => ?_
    obtain ⟨⟨kind, text, touches⟩, hs, rfl⟩ := Option.map_eq_some_iff.1 hkind
    rw [List.mem_cons, List.mem_singleton] at hmem
    rcases hmem with rfl | rfl
    · exact hinteger text touches hs
    · exact hdecimal text touches hs

theorem number : R.Keeps m i number number (Says ts i) := by
  rw [number_eq]
  refine peek fun o ho => ite (fun hminus => ?_) fun _ => magnitude false
  have hkind := ho.trans hminus
  exact skip hkind ((magnitude true).mono fun _ _ _ hn => (Spans.of_shows hkind rfl).after hn.2)

/-! ## Brackets and operands -/

section Nested

variable {nested nested' : Parser Node} (h : R.Within i nested nested')

include h

theorem parenthesized :
    R.Keeps m i (parenthesized nested) (parenthesized nested') (Says ts i) :=
  expect fun hopen => (h (i + 1) (Nat.lt_succ_self i)).before fun _ _ _ hnode =>
    expect fun hclose => pure
      (((Spans.of_shows hopen rfl).after hnode.2).before (.of_shows hclose rfl))

theorem inline : R.Keeps m i (inline nested) (inline nested') (Says ts i) :=
  expect fun hopen => (h (i + 1) (Nat.lt_succ_self i)).before fun _ _ _ hnode =>
    expect fun hclose => pure
      (((Spans.of_shows hopen rfl).after hnode.2).before (.of_shows hclose rfl)).inline

/-- An operand touches what is before it: behind a gap it is refused there. -/
theorem operand (hi : 0 < i) : R.Keeps m i (operand nested) (operand nested') (Says ts i) := by
  refine touching fun o ho => ?_
  split
  · exact number
  · exact number
  · exact number
  · exact parenthesized h
  · exact inline h
  · next hinteger hdecimal hminus hparen hopen =>
    refine unexpected_touching hi ho ?_
    rintro kind rfl hmem
    simp only [operandStart, List.mem_cons, List.not_mem_nil, or_false] at hmem
    rcases hmem with rfl | rfl | rfl | rfl | rfl
    · exact hinteger rfl
    · exact hdecimal rfl
    · exact hminus rfl
    · exact hparen rfl
    · exact hopen rfl

/-- An operand that may be missing is told from an operator by what is before it. -/
theorem operand? (hi : 0 < i) (hclear : R.Clear i) :
    R.Keeps m i (operand? nested) (operand? nested') fun o j => Spans ts i j o.toList := by
  refine glance_touching (fun o ho => ?_) .nil rfl (.inr hclear)
  cases o with
  | none => exact .inl ⟨rfl, rfl⟩
  | some kind =>
    by_cases hkind : kind ∈ operandStart
    · refine .inr ?_
      dsimp only
      rw [if_pos hkind, if_pos hkind]
      exact map (operand h hi)
    · exact .inl ⟨if_neg hkind, if_neg hkind⟩

omit h in
/-- Unless there is a sign, nothing is taken. -/
theorem comparison? : R.Keeps m i comparison? comparison? fun o j =>
    Spans ts i j [] ∧ (o = none → j = i) := by
  refine glance_touching (fun o ho => ?_) ⟨.nil, fun _ => rfl⟩ rfl (.inl rfl)
  split
  · next compare hcompare =>
    obtain ⟨kind, rfl, hkind⟩ := Option.bind_eq_some_iff.1 hcompare
    have hshows := Cursor.shows_of_touching ho
    exact .inr (skip hshows (pure ⟨.of_shows hshows (isPlain_of_eq_some rfl rfl rfl hkind), nofun⟩))
  · exact .inl ⟨rfl, rfl⟩

/-- A condition says its target. -/
theorem condition (hi : 0 < i) :
    R.Keeps m i (condition nested) (condition nested') fun c j => Says ts i c.target j :=
  comparison?.andThen fun _ j hij hcompare =>
    (operand (h.forward hij) (by omega)).andThen fun _ _ _ htarget =>
      pure ⟨Nat.lt_of_le_of_lt hij htarget.1, hcompare.1.after htarget.2⟩

/-- A sign wants a target; without one there may be a target or none. -/
theorem trigger? (hi : 0 < i) (hclear : R.Clear i) :
    R.Keeps m i (trigger? nested) (trigger? nested') fun o j =>
      Spans ts i j (o.toList.map Condition.target) := by
  refine comparison?.andThen fun o j hij hcompare => ?_
  cases o with
  | some compare =>
    exact (operand (h.forward hij) (by omega)).andThen fun _ _ _ htarget =>
      pure (hcompare.1.after htarget.2)
  | none =>
    obtain rfl := hcompare.2 rfl
    refine (operand? h hi hclear).andThen fun o _ _ htarget => pure ?_
    cases o <;> exact htarget

/-! ## Modifiers -/

omit h in
/-- Behind the end of the ranking an operand may be missing, as it may without one. -/
theorem extreme? (hclear : R.Clear i) : R.Keeps m i extreme? extreme? fun _ j =>
    Spans ts i j [] ∧ R.Clear j := by
  refine glance_touching (fun o ho => ?_) ⟨.nil, hclear⟩ rfl (.inl rfl)
  split
  · next extreme hextreme =>
    obtain ⟨kind, rfl, hkind⟩ := Option.bind_eq_some_iff.1 hextreme
    have hshows := Cursor.shows_of_touching ho
    have hopen := mem_openEnded_of_isSome_extremeOf? (by rw [hkind]; rfl)
    exact .inr (skip hshows (pure
      ⟨.of_shows hshows (isPlain_of_mem_openEnded hopen), .of_shows hshows hopen⟩))
  · exact .inl ⟨rfl, rfl⟩

/-- Without a number of dice, one die is selected. -/
theorem selected (hi : 0 < i) (hclear : R.Clear i) (action : Selection) :
    R.Keeps m i (selected nested action) (selected nested' action) fun x j =>
      x.isMechanical ∧ x.fitsGroups ∧ Spans ts i j x.operands := by
  refine (extreme? hclear).andThen fun extreme j hij hextreme => ?_
  refine (operand? (h.forward hij) (by omega) hextreme.2).andThen fun o k _ hcount => ?_
  refine pure ⟨rfl, rfl, hextreme.1.after ?_⟩
  cases o with
  | none => exact hcount.append (.unwritten (.inl rfl))
  | some count => exact hcount

theorem selection {kind : Kind} (hkind : (place ts finish i).Shows kind)
    (hselection : kind = .keep ∨ kind = .d) :
    R.Keeps m i (selection nested) (selection nested') fun x j =>
      i < j ∧ x.isMechanical ∧ x.fitsGroups ∧ Spans ts i j x.operands := by
  have hopen : kind ∈ Kind.openEnded := by
    rcases hselection with rfl | rfl
    · decide
    · decide
  have hfirst := Spans.of_shows hkind (isPlain_of_mem_openEnded hopen)
  rw [selection_eq, selection_eq]
  refine peek fun o _ => skip hkind ?_
  refine (selected (h.forward (Nat.le_succ i)) (Nat.succ_pos i) (.of_shows hkind hopen) _).mono ?_
  exact fun x j _ hx => ⟨hx.1, hx.2.1, hfirst.after hx.2.2⟩

/-- A match has a target just if it has a sign. -/
theorem matchCondition? (hi : 0 < i) :
    R.Keeps m i (matchCondition? nested) (matchCondition? nested') fun o j =>
      Spans ts i j (o.toList.map Condition.target) := by
  refine comparison?.andThen fun o j hij hcompare => ?_
  cases o with
  | some compare =>
    exact (operand (h.forward hij) (by omega)).andThen fun _ _ _ htarget =>
      pure (hcompare.1.after htarget.2)
  | none => exact pure hcompare.1

omit h in
theorem least : R.Keeps m i least least fun n j => Spans ts i j [n] := by
  refine glance_touching (z := .int 2) (fun o _ => ?_) (.unwritten (.inr rfl)) rfl (.inl rfl)
  split
  · exact .inr number
  · exact .inl ⟨rfl, rfl⟩

/-- A match says the least number of equal dice and then its target. -/
theorem matching {kind : Kind} (hkind : (place ts finish i).Shows kind) (hplain : kind.isPlain) :
    R.Keeps m i (matching nested) (matching nested') fun x j =>
      i < j ∧ x.compare.isSome = x.target.isSome ∧ Spans ts i j x.operands := by
  have hfirst := Spans.of_shows hkind hplain
  rw [matching_eq, matching_eq]
  refine peek fun o _ => skip hkind (least.andThen fun least j hj hleast => ?_)
  refine (matchCondition? (h.forward (by omega)) (by omega)).andThen fun o k _ hcondition => ?_
  refine pure ⟨by simp, ((hfirst.after hleast).append hcondition).of_eq ?_⟩
  cases o <;> rfl

/-! ## Dice -/

omit h in
/-- A step of a repetition that has something to go on with. -/
theorem goesOn {α σ : Type} {p q : Parser α} {f : α → σ} {I : σ → Nat → Prop}
    (hp : R.Keeps m i p q fun a j => i < j ∧ I (f a) j) :
    R.Keeps m i (p >>= fun a => Pure.pure (some (f a))) (q >>= fun a => Pure.pure (some (f a)))
      fun o j => i < j ∧ o.elim (j = i) fun s => i < j ∧ I s j :=
  hp.andThen fun _ _ _ ha => pure ⟨ha.1, ha⟩

/-- One more modifier: the dice that were said from place `i₀` to here are said from there to
where it ends. -/
theorem dieSuffix {i₀ : Nat} (hi : 0 < i) {spec : DieSpec Node} (hspec : SpansDice ts i₀ i spec) :
    R.Keeps m i (dieSuffix nested spec) (dieSuffix nested' spec) fun o j =>
      o.elim (j = i) fun spec' => i < j ∧ SpansDice ts i₀ j spec' := by
  refine glance_touching (z := none) (fun o ho => ?_) rfl rfl (.inl rfl)
  cases o with
  | none => exact .inl ⟨rfl, rfl⟩
  | some kind =>
    have hkind := Cursor.shows_of_touching ho
    dsimp only
    -- keep and drop
    split
    · next hselection =>
      refine .inr (goesOn ((selection h hkind hselection).mono ?_))
      exact fun x j _ hx => ⟨hx.1, hspec.addModifier hx.2.1 hx.2.2.2⟩
    -- the ways of rolling again
    split
    · next mechanic hmechanic =>
      have hopen := mem_openEnded_of_isSome_mechanicOf? (by rw [hmechanic]; rfl)
      have hfirst := Spans.of_shows hkind (isPlain_of_mem_openEnded hopen)
      have htrigger := trigger? (m := m) (h.forward (Nat.le_succ i)) (Nat.succ_pos i)
        (.of_shows hkind hopen)
      refine .inr (skip hkind (htrigger.andThen fun trigger j hj ho => pure ⟨hj, ?_⟩))
      exact hspec.addModifier rfl ((hfirst.after ho).of_eq (by cases trigger <;> rfl))
    -- a comparison alone tests for success, the other tests have a sign
    split
    · refine .inr (goesOn ((condition h hi).mono fun c j _ hc => ⟨hc.1, ?_⟩))
      exact hspec.addTarget rfl hc.2
    split
    · next meaning hmeaning =>
      have hfirst := Spans.of_shows hkind (isPlain_of_eq_some rfl rfl rfl hmeaning)
      have hcondition := condition (m := m) (h.forward (Nat.le_succ i)) (Nat.succ_pos i)
      refine .inr (skip hkind (hcondition.andThen fun c j hj hc => pure ⟨hj, ?_⟩))
      exact hspec.addTarget rfl (hfirst.after hc.2)
    -- a match and a sort, unless there is one already
    split
    · next hmatching =>
      have hplain : kind.isPlain := by
        rcases hmatching with rfl | rfl
        · decide
        · decide
      refine .inr (ite (fun _ => refuse hkind ⟨rfl, ?_⟩) fun hnone => ?_)
      · rcases hmatching with rfl | rfl
        · decide
        · decide
      · refine goesOn ((matching h hkind hplain).mono fun x j _ hx => ⟨hx.1, ?_⟩)
        exact hspec.setMatching (by simpa using hnone) hx.2.1 hx.2.2
    split
    · next order horder =>
      have hplain := isPlain_of_eq_some rfl rfl rfl horder
      refine .inr (ite (fun _ => refuse hkind ⟨rfl, ?_⟩) fun _ => ?_)
      · cases kind <;> first | decide | cases horder
      · refine skip hkind (pure ⟨Nat.lt_succ_self i, ?_⟩)
        exact (hspec.before (.of_shows hkind hplain)).setSort order
    · exact .inl ⟨rfl, rfl⟩

/-- The sides of dice touch the `d`. -/
theorem sides (hi : 0 < i) :
    R.Keeps m i (sides nested) (sides nested') fun s j => i < j ∧ Spans ts i j s.parts := by
  refine touching fun o ho => ?_
  split
  · exact number.andThen fun _ _ _ hn => pure hn
  · have hkind := Cursor.shows_of_touching ho
    exact skip hkind (pure (Spans.of_shows hkind rfl))
  · exact (parenthesized h).andThen fun _ _ _ hn => pure hn
  · exact (inline h).andThen fun _ _ _ hn => pure hn
  · next hinteger hfate hparen hopen =>
    refine unexpected_touching hi ho ?_
    rintro kind rfl hmem
    simp only [List.mem_cons, List.not_mem_nil, or_false] at hmem
    rcases hmem with rfl | rfl | rfl | rfl
    · exact hinteger rfl
    · exact hfate rfl
    · exact hparen rfl
    · exact hopen rfl

/-- What says the count is before the `d`, from place `i₀` on. -/
theorem dice {i₀ : Nat} {count : Node} (hcount : Spans ts i₀ i [count]) :
    R.Keeps m i (dice nested count) (dice nested' count) fun n j =>
      i < j ∧ Spans ts i₀ j [n] := by
  refine expect fun hd => ?_
  have h := h.forward (Nat.le_succ i)
  refine (sides h (Nat.succ_pos i)).andThen fun faces j hj hfaces => ?_
  have h := h.forward hj
  have hstart := SpansDice.start (hcount.before (.of_shows hd rfl)) hfaces.2
  have hsuffixes := iterate (R := R) (m := m) (I := fun spec k => SpansDice ts i₀ k spec)
    (fun spec k hk hspec => dieSuffix (h.forward hk) (by omega) hspec)
    (declines_dieSuffix nested) (declines_dieSuffix nested') hstart
  exact hsuffixes.andThen fun spec k _ hspec => pure hspec.spans

/-- A number before a `d` counts dice; else it is a number. -/
theorem countOrDice {i₀ : Nat} {count : Node} (hcount : Spans ts i₀ i [count]) :
    R.Keeps m i (countOrDice nested count) (countOrDice nested' count) fun n j =>
      Spans ts i₀ j [n] := by
  refine glance_touching (z := count) (fun o _ => ?_) hcount rfl (.inl rfl)
  split
  · exact .inr (dice h hcount)
  · exact .inl ⟨rfl, rfl⟩

/-! ## Groups -/

/-- One more modifier of a group, or the refusal of one that only dice have. -/
theorem groupSuffix (hi : 0 < i) :
    R.Keeps m i (groupSuffix nested) (groupSuffix nested') fun o j =>
      o.elim (j = i) fun x => i < j ∧ x.fitsGroups ∧ Spans ts i j x.operands := by
  refine glance_touching (z := none) (fun o ho => ?_) rfl rfl (.inl rfl)
  cases o with
  | none => exact .inl ⟨rfl, rfl⟩
  | some kind =>
    have hkind := Cursor.shows_of_touching ho
    dsimp only
    -- keep and drop, and the conditions for success and failure
    split
    · next hselection =>
      refine .inr (map ((selection h hkind hselection).mono ?_))
      exact fun x j _ hx => ⟨hx.1, hx.1, hx.2.2⟩
    split
    · exact .inr (goesOn ((condition h hi).mono fun c j _ hc => ⟨hc.1, rfl, hc.2⟩))
    split
    · next hfailure =>
      have hfirst := Spans.of_shows hkind (by rw [hfailure]; rfl)
      have hcondition := condition (m := m) (h.forward (Nat.le_succ i)) (Nat.succ_pos i)
      refine .inr (skip hkind (hcondition.andThen fun c j hj hc => pure ⟨hj, rfl, ?_⟩))
      exact hfirst.after hc.2
    -- what only dice can have
    split
    · next hmem => exact .inr (refuse hkind ⟨rfl, hmem⟩)
    · exact .inl ⟨rfl, rfl⟩

/-- A member is followed by more of its group. -/
theorem member? : R.Keeps 1 i (member? nested) (member? nested') fun o j =>
    o.elim (j = i) fun n => i < j ∧ Spans ts i j [n] := by
  unfold Parser.member?
  rw [accept_bind, accept_bind]
  refine glance_peek (z := none) (fun o ho => ?_) rfl rfl fun _ => rfl
  split
  · next hcomma =>
    have hkind := ho.trans hcomma
    refine .inr (skip hkind (map ((h (i + 1) (Nat.lt_succ_self i)).mono ?_)))
    exact fun n j hj hn => ⟨hj, (Spans.of_shows hkind rfl).after hn.2⟩
  · exact .inl ⟨rfl, rfl⟩

/-- A group says its members and the operands of its modifiers. -/
theorem group : R.Keeps m i (group nested) (group nested') (Says ts i) := by
  refine expect fun hopen => (h (i + 1) (Nat.lt_succ_self i)).before fun first j hj hfirst => ?_
  -- the brace is still to come, so behind a member both readings see the same
  have hmembers : R.Keeps 1 j (Parser.many (Parser.member? nested))
      (Parser.many (Parser.member? nested')) fun rest k => Spans ts j k rest :=
    many (Q := fun n k l => Spans ts k l [n]) (fun k hk => member? (h.forward (by omega)))
      (declines_member? nested) (declines_member? nested') .nil fun _ _ _ _ => .append
  refine hmembers.before fun rest k hk hrest => expect fun hclose => ?_
  have hmods : R.Keeps m (k + 1) (Parser.many (Parser.groupSuffix nested))
      (Parser.many (Parser.groupSuffix nested')) fun mods l =>
        (∀ x ∈ mods, x.fitsGroups) ∧ Spans ts (k + 1) l (mods.flatMap Modifier.operands) := by
    refine many (Q := fun x k l => x.fitsGroups ∧ Spans ts k l x.operands)
      (fun l hl => groupSuffix (h.forward (by omega)) (by omega))
      (declines_groupSuffix nested) (declines_groupSuffix nested') ⟨nofun, .nil⟩ ?_
    intro mods x l l' hmods hx
    refine ⟨List.forall_mem_append.2 ⟨hmods.1, List.forall_mem_singleton.2 hx.1⟩, ?_⟩
    exact (hmods.2.append hx.2).of_eq (by simp)
  refine hmods.andThen fun mods l hl hmods => pure ⟨by omega, .group hmods.1 ?_⟩
  have hfirst := (Spans.of_shows hopen rfl).after hfirst.2
  exact (hfirst.cons (hrest.before (.of_shows hclose rfl))).append hmods.2

/-! ## Terms -/

omit h in
/-- A label says nothing, but its text is that of a token. -/
theorem label? : R.Keeps m i label? label? fun o j => o.elim (j = i) fun l =>
    i < j ∧ Spans ts i j [] ∧ ∃ t ∈ ts, t.kind = .label ∧
      l = String.ofList t.text.toList.tail.dropLast := by
  rw [label?_eq]
  refine glance (z := none) ?_ rfl rfl fun s hs => ?_
  · split
    · next hs =>
      have hkind := Cursor.shows_of_sight hs
      obtain ⟨t, ht, htkind, rfl⟩ := Cursor.exists_token hs
      refine .inr (skip hkind (pure ⟨Nat.lt_succ_self i, .of_shows hkind rfl, ?_⟩))
      exact ⟨t, List.mem_of_getElem? ht, htkind, rfl⟩
    · exact .inl ⟨rfl, rfl⟩
  · -- a minus is no label
    obtain ⟨kind, text, touches⟩ := s
    obtain rfl : kind = .minus := R.kind_of_sees hs
    rfl

omit h in
/-- A number that no die may follow. -/
theorem unlessDice {i₀ : Nat} {node : Node} (hi : 0 < i) (hnode : Spans ts i₀ i [node]) :
    R.Keeps m i
      (do if (← Parser.touching) = some .d then Parser.unexpected [.plus, .minus] else return node)
      (do if (← Parser.touching) = some .d then Parser.unexpected [.plus, .minus] else return node)
      fun n j => Spans ts i₀ j [n] := by
  refine glance_touching (z := node) (fun o ho => ?_) hnode rfl (.inl rfl)
  split
  · next hd =>
    refine .inr (unexpected_touching hi ho fun kind hkind => ?_)
    rw [hd] at hkind
    obtain rfl := Option.some.inj hkind
    decide
  · exact .inl ⟨rfl, rfl⟩

/-- What a term begins with tells what it is. -/
theorem bareTerm : R.Keeps m i (bareTerm nested) (bareTerm nested') (Says ts i) := by
  -- what is read first counts dice, or is a number that does not
  have hcount {p q : Parser Node} (hp : R.Keeps m i p q (Says ts i)) :
      R.Keeps m i (p >>= Parser.countOrDice nested) (q >>= Parser.countOrDice nested')
        (Says ts i) :=
    hp.andThen fun _ _ hj hn => (countOrDice (h.forward hj) hn.2).mono fun _ _ hk hn' =>
      ⟨Nat.lt_of_lt_of_le hn.1 hk, hn'⟩
  have hsigned : R.Keeps m i
      (Parser.number >>= fun node => Parser.touching >>= fun o =>
        if o = some .d then Parser.unexpected [.plus, .minus] else Pure.pure node)
      (Parser.number >>= fun node => Parser.touching >>= fun o =>
        if o = some .d then Parser.unexpected [.plus, .minus] else Pure.pure node)
      (Says ts i) :=
    number.andThen fun _ _ hj hn => (unlessDice (by have := hn.1; omega) hn.2).mono
      fun _ _ hk hn' => ⟨Nat.lt_of_lt_of_le hn.1 hk, hn'⟩
  refine peek fun o ho => ?_
  split
  · exact hcount number
  · exact hsigned
  · exact hsigned
  · exact hcount (parenthesized h)
  · exact hcount (inline h)
  · exact group h
  · exact dice h (.unwritten (.inl rfl))
  · next kind hinteger hdecimal hminus hparen hopen hbrace hd =>
    split
    · next fn hfn =>
      have hplain := isPlain_of_eq_some rfl rfl rfl hfn
      have hfirst := Spans.of_shows ho hplain
      exact skip ho ((parenthesized (h.forward (Nat.le_succ i))).andThen fun n j hj hn =>
        pure ((hfirst.after hn.2).function fn))
    · next hfn =>
      refine unexpected_peek ho fun kind' hkind' => ?_
      obtain rfl := Option.some.inj hkind'
      refine not_mem_termStart ?_ hfn
      simpa using ⟨hinteger, hdecimal, hminus, hparen, hopen, hbrace, hd⟩
  · exact unexpected_peek ho nofun

/-- A term with labels behind it says what it says without them. -/
theorem term : R.Keeps m i (term nested) (term nested') (Says ts i) := by
  refine (bareTerm h).andThen fun node j _ hnode => ?_
  have hlabels : R.Keeps m j (Parser.many Parser.label?) (Parser.many Parser.label?)
      fun labels k => (∀ l ∈ labels, ∃ t ∈ ts, t.kind = .label ∧
        l = String.ofList t.text.toList.tail.dropLast) ∧ Spans ts j k [] := by
    refine many (Q := fun l k k' => Spans ts k k' [] ∧ ∃ t ∈ ts, t.kind = .label ∧
      l = String.ofList t.text.toList.tail.dropLast) (fun _ _ => label?) declines_label?
      declines_label? ⟨nofun, .nil⟩ fun labels l k k' hlabels hl => ?_
    exact ⟨List.forall_mem_append.2 ⟨hlabels.1, List.forall_mem_singleton.2 hl.2⟩,
      hlabels.2.before hl.1⟩
  refine hlabels.andThen fun labels k hk hlabels => ?_
  have hspans := hnode.2.before hlabels.2
  split
  · exact pure ⟨Nat.lt_of_lt_of_le hnode.1 hk, hspans⟩
  · next hne => exact pure ⟨Nat.lt_of_lt_of_le hnode.1 hk, hspans.labelled hne hlabels.1⟩

end Nested

/-! ## Expressions -/

section Links

variable {ω : Type} {opOf? : Kind → Option ω} {p q : Parser Node}
  (hplain : ∀ kind op, opOf? kind = some op → kind.isPlain)
  (h : ∀ j, i ≤ j → R.Keeps m j p q (Says ts j))

include hplain h

/-- An operator and what is to its right. The second reading may see a minus that the first
one does not, so a level with that operator has nothing to see. -/
theorem link? (hminus : (∃ s, R.Sees m i s) → opOf? .minus = none) :
    R.Keeps m i (link? opOf? p) (link? opOf? q) fun o j => o.elim (j = i) fun l =>
      i < j ∧ (∃ kind, opOf? kind = some l.op) ∧ Spans ts i j [l.term] := by
  refine glance_peek (z := none) (fun o ho => ?_) rfl rfl fun hs => ?_
  · split
    · next op hop =>
      obtain ⟨kind, rfl, hkind⟩ := Option.bind_eq_some_iff.1 hop
      have hfirst := Spans.of_shows ho (hplain kind op hkind)
      exact .inr (skip ho ((h (i + 1) (Nat.le_succ i)).andThen fun n j hj hn =>
        pure ⟨hj, ⟨kind, hkind⟩, hfirst.after hn.2⟩))
    · exact .inl ⟨rfl, rfl⟩
  · rw [Option.bind_some, hminus hs]

variable (hminus : (∃ j s, R.Sees m j s) → opOf? .minus = none)

include hminus

/-- Operators of one level, each with what is to its right. -/
theorem links : R.Keeps m i (Parser.many (Parser.link? opOf? p))
    (Parser.many (Parser.link? opOf? q)) fun tail j =>
      (∀ l ∈ tail, ∃ kind, opOf? kind = some l.op) ∧ Spans ts i j (tail.map Link.term) := by
  refine many (Q := fun l j k => (∃ kind, opOf? kind = some l.op) ∧ Spans ts j k [l.term])
    (fun j hj => link? hplain (fun k hk => h k (Nat.le_trans hj hk))
      fun hs => hminus ⟨j, hs⟩) (declines_link? opOf? p) (declines_link? opOf? q)
    ⟨nofun, .nil⟩ fun tail l j k htail hl => ?_
  refine ⟨List.forall_mem_append.2 ⟨htail.1, List.forall_mem_singleton.2 hl.1⟩, ?_⟩
  exact (htail.2.append hl.2).of_eq (by simp)

/-- Terms with operators of one level between them. -/
theorem chained {build : Node → List (Link ω Node) → Node}
    (hbuild : ∀ head tail j, (∀ l ∈ tail, ∃ kind, opOf? kind = some l.op) →
      Spans ts i j (head :: tail.map Link.term) → Spans ts i j [build head tail]) :
    R.Keeps m i (do return build (← p) (← Parser.many (Parser.link? opOf? p)))
      (do return build (← q) (← Parser.many (Parser.link? opOf? q))) (Says ts i) := by
  refine (h i (Nat.le_refl i)).andThen fun head j hj hhead => ?_
  have htail := links hplain (fun k hk => h k (Nat.le_trans hj hk)) hminus
  exact htail.andThen fun tail k hk htail => pure
    ⟨Nat.lt_of_lt_of_le hhead.1 hk, hbuild head tail k htail.1 (hhead.2.cons htail.2)⟩

end Links

section Nested

variable {nested nested' : Parser Node} (h : R.Within i nested nested')

include h

/-- Powers say their bases and exponents. -/
theorem power : R.Keeps m i (power nested) (power nested') (Says ts i) := by
  refine chained (fun _ _ => isPlain_of_eq_some rfl rfl rfl)
    (fun _ hj => term (h.forward hj)) (fun _ => rfl) ?_
  refine fun head tail j hops hspans => hspans.chain (.inr fun op hop => ?_)
  obtain ⟨l, hl, rfl⟩ := List.mem_map.1 hop
  obtain ⟨kind, hkind⟩ := hops l hl
  exact eq_pow_of_powerOpOf? hkind

/-- Products say their factors. -/
theorem product : R.Keeps m i (product nested) (product nested') (Says ts i) := by
  refine chained (fun _ _ => isPlain_of_eq_some rfl rfl rfl)
    (fun _ hj => power (h.forward hj)) (fun _ => rfl) ?_
  refine fun head tail j hops hspans => hspans.chain (.inl fun op hop => ?_)
  obtain ⟨l, hl, rfl⟩ := List.mem_map.1 hop
  obtain ⟨kind, hkind⟩ := hops l hl
  exact mul_or_div_or_rem_of_factorOpOf? hkind

/-- Between the terms of a sum the second reading has nothing more to see. -/
theorem sum (hminus : ∀ j s, ¬R.Sees m j s) :
    R.Keeps m i (sum nested) (sum nested') (Says ts i) :=
  chained (fun _ _ => isPlain_of_eq_some rfl rfl rfl) (fun _ hj => product (h.forward hj))
    (fun h => h.elim fun j h => h.elim fun s hs => absurd hs (hminus j s)) fun _ _ _ _ => .sum

end Nested

/-- **Expressions**, as long as their depth is enough for what is left. -/
theorem expression (hminus : ∀ j s, ¬R.Sees m j s) {depth : Nat} (h : ts.length ≤ i + depth) :
    R.Keeps m i (expression depth) (expression depth) (Says ts i) := by
  induction depth generalizing m i with
  | zero =>
    refine unexpected fun kind _ hkind => ?_
    have hlt := Cursor.lt_of_shows hkind
    omega
  | succ depth ih => exact sum (fun j hj => ih (fun _ _ => R.not_sees_one) (by omega)) hminus

end Keeps

end Coupling

/-! ## One reading -/

/-- **An expression of any depth** goes on past what says it. -/
theorem takes_expression (depth : Nat) : Takes ts finish i (expression depth) (Says ts i) := by
  induction depth generalizing i with
  | zero => exact .of_error fun _ _ => run_unexpected_ne_ok
  | succ depth ih =>
    have hsum : Coupling.alone.Keeps 0 i (sum (expression depth)) (sum (expression depth))
        (Says ts i) :=
      .sum (fun j _ => ⟨ih, trivial⟩) fun _ _ => id
    exact hsum.takes

theorem within_alone (depth : Nat) :
    (Coupling.alone : Coupling ts finish).Within i (expression depth) (expression depth) :=
  fun _ _ => ⟨takes_expression depth, trivial⟩

/-- **What is read from the start** is what the tokens say up to the place where it ends. -/
theorem exists_place_of_run {depth bytes : Nat} {node : Node} {after : Cursor}
    (h : (expression depth).run (.start ts bytes) = .ok (node, after)) :
    ∃ j, 0 < j ∧ j ≤ ts.length ∧ after = place ts bytes j ∧ Spans ts 0 j [node] := by
  obtain ⟨j, -, hj, hafter, hpos, hspans⟩ := takes_expression depth (Nat.zero_le _) node after h
  exact ⟨j, hpos, hj, hafter, hspans⟩

end Parser

end DiceNotation
