import DiceNotation.Proofs.Grammar.Reading
import DiceNotation.Proofs.Notation.Bare
import DiceNotation.Proofs.Token.Words

/-!
# Reading what is written

Which expression some words are read as (`Parser.Writes`), on each level of the
grammar, up to labels: literals, brackets, groups and functions are terms
(`Writes.inParens` and so on), terms are chained on the levels above
(`Writes.powers`, `Writes.products`, `Writes.sums`). None of this depends on
where the tokens stand, since nothing that follows a term here is read as a
modifier of it.
-/

namespace DiceNotation

open Token (Kind braces integerWords labelWord parens)

variable {α β : Type} {k : Kind} {s : String} {c : Cursor}
  {ws ws' ls rest : List (Kind × String)} {n : Node}

/-- What the tokens to come say. -/
def Cursor.words (c : Cursor) : List (Kind × String) := c.rest.map Token.word

namespace Cursor

/-- The next word is seen, whether it touches what is before it or not. -/
theorem exists_sight (h : c.words = (k, s) :: ws) :
    ∃ touches, c.sight = some ⟨k, s, touches⟩ ∧ c.advance.words = ws := by
  obtain ⟨previous, tokens, finish⟩ := c
  cases tokens with
  | nil => cases h
  | cons t ts =>
    obtain ⟨ht, hts⟩ := List.cons.inj h
    cases ht
    exact ⟨_, rfl, hts⟩

/-- What comes next is of one of these kinds, if anything comes next. -/
def Meets (follow : List Kind) (ws : List (Kind × String)) : Prop :=
  ∀ w ∈ ws.head?, w.1 ∈ follow

/-- What is seen is of a kind that may follow. -/
theorem mem_of_sight {follow : List Kind} (h : Meets follow c.words) :
    ∀ s ∈ c.sight, s.kind ∈ follow := by
  obtain ⟨previous, tokens, finish⟩ := c
  cases tokens with
  | nil => exact nofun
  | cons t ts =>
    rintro _ ⟨⟩
    exact h _ rfl

end Cursor

open Cursor (Meets)

namespace Parser

variable {p : Parser α} {f : α → Parser β} {follow follow' : List Kind} {P : α → Prop}
  {Q : β → Prop}

/-! ## Understanding words -/

/-- Where these words come next, and one of the kinds in `follow` or nothing
comes behind them, the parser takes them, and gives something with the
property. -/
def Understands (p : Parser α) (ws : List (Kind × String)) (follow : List Kind) (P : α → Prop) :
    Prop :=
  ∀ c rest, c.words = ws ++ rest → Meets follow rest →
    ∃ a e, p.run c = .ok (a, e) ∧ e.words = rest ∧ P a

namespace Understands

theorem pure {a : α} (h : P a) : Understands (pure a) [] follow P :=
  fun c _ hc _ => ⟨a, c, rfl, hc, h⟩

/-- What may follow the first part is what the second one begins with, or what may follow
that. -/
theorem bind (hp : Understands p ws follow P) (hf : ∀ a, P a → Understands (f a) ws' follow' Q)
    (hmeets : ∀ rest, Meets follow' rest → Meets follow (ws' ++ rest)) :
    Understands (p >>= f) (ws ++ ws') follow' Q := by
  intro c rest hc hrest
  rw [List.append_assoc] at hc
  obtain ⟨a, d, ha, hd, hP⟩ := hp c _ hc (hmeets rest hrest)
  obtain ⟨b, e, hb, he, hQ⟩ := hf a hP d rest hd hrest
  exact ⟨b, e, run_bind_eq_ok.2 ⟨a, d, ha, hb⟩, he, hQ⟩

/-- What is left to do takes nothing. -/
theorem andThen (hp : Understands p ws follow P)
    (hf : ∀ a, P a → Understands (f a) [] follow' Q) (hfollow : follow' ⊆ follow) :
    Understands (p >>= f) ws follow' Q := by
  have h := hp.bind hf fun rest hrest w hw => hfollow (hrest w hw)
  rwa [List.append_nil] at h

/-- A look sees the next word, touching or not. -/
theorem look {f : Option Sight → Parser β}
    (h : ∀ touches, Understands (f (some ⟨k, s, touches⟩)) ((k, s) :: ws) follow Q) :
    Understands (look >>= f) ((k, s) :: ws) follow Q := by
  intro c rest hc hrest
  obtain ⟨touches, hsight, -⟩ := Cursor.exists_sight hc
  rw [run_look_bind, hsight]
  exact h touches c rest hc hrest

/-- Behind the words a look sees nothing, or what may follow. -/
theorem look_end {f : Option Sight → Parser β}
    (h : ∀ o : Option Sight, (∀ s ∈ o, s.kind ∈ follow) → Understands (f o) [] follow Q) :
    Understands (Parser.look >>= f) [] follow Q := by
  intro c rest hc hrest
  obtain rfl : c.words = rest := hc
  rw [run_look_bind]
  exact h c.sight (Cursor.mem_of_sight hrest) c _ rfl hrest

theorem peek {f : Option Kind → Parser β} (h : Understands (f (some k)) ((k, s) :: ws) follow Q) :
    Understands (peek >>= f) ((k, s) :: ws) follow Q := by
  rw [peek_bind]
  exact look fun _ => h

/-- So does a look at a kind that touches. -/
theorem touching_end {f : Option Kind → Parser β}
    (h : ∀ o : Option Kind, (∀ k ∈ o, k ∈ follow) → Understands (f o) [] follow Q) :
    Understands (touching >>= f) [] follow Q := by
  rw [touching_bind]
  refine look_end fun o ho => h _ fun k hk => ?_
  obtain ⟨s, rfl, hs⟩ := Option.bind_eq_some_iff.1 hk
  rw [← Sight.kind_of_touching hs]
  exact ho s rfl

theorem skip {f : Unit → Parser β} (h : Understands (f ()) ws follow Q) :
    Understands (skip >>= f) ((k, s) :: ws) follow Q := by
  intro c rest hc hrest
  obtain ⟨-, -, hadvance⟩ := Cursor.exists_sight hc
  obtain ⟨b, e, hb, he, hQ⟩ := h _ rest hadvance hrest
  exact ⟨b, e, run_bind_eq_ok.2 ⟨(), _, run_skip, hb⟩, he, hQ⟩

theorem expect {f : Unit → Parser β} (h : Understands (f ()) ws follow Q) :
    Understands (expect k >>= f) ((k, s) :: ws) follow Q := by
  unfold Parser.expect
  rw [bind_assoc]
  refine peek ?_
  rw [if_pos rfl]
  exact skip h

theorem mono {P' : α → Prop} (h : Understands p ws follow P) (hP : ∀ a, P a → P' a) :
    Understands p ws follow P' := by
  intro c rest hc hrest
  obtain ⟨a, e, ha, he, h⟩ := h c rest hc hrest
  exact ⟨a, e, ha, he, hP a h⟩

end Understands

/-! ## Repetitions -/

section Many

variable {step : Parser (Option α)} {R : List α → Prop}

/-- A step that these kinds of token do not start. -/
def DeclinesAt (step : Parser (Option α)) (follow : List Kind) : Prop :=
  ∀ c, Meets follow c.words → step.run c = .ok (none, c)

/-- A step that takes a token when it goes on. -/
def Advances (step : Parser (Option α)) : Prop :=
  ∀ c a d, step.run c = .ok (some a, d) → d.rest.length < c.rest.length

theorem Advances.of_takes {Q : List Token → Nat → α → Nat → Prop}
    (h : ∀ ts finish i, Takes ts finish i step fun o j =>
      o.elim (j = i) fun a => i < j ∧ Q ts i a j) : Advances step := by
  refine fun c a d => Takes.length_lt fun ts finish i =>
    (h ts finish i).mono fun o j _ ho hsome => ?_
  subst hsome
  exact ho.1

/-- A step that looks for other kinds than those that may follow declines. -/
theorem declinesAt_touching {f : Option Kind → Parser (Option α)} (hnone : f none = pure none)
    (hsome : ∀ k ∈ follow, f (some k) = pure none) : DeclinesAt (touching >>= f) follow := by
  intro c hc
  rw [touching_bind, run_look_bind]
  cases hk : c.sight.bind Sight.touching with
  | none => rw [hnone, StateT.run_pure]; rfl
  | some k =>
    obtain ⟨s, hs, hk⟩ := Option.bind_eq_some_iff.1 hk
    rw [hsome k (Sight.kind_of_touching hk ▸ Cursor.mem_of_sight hc s hs), StateT.run_pure]
    rfl

theorem declinesAt_peek {f : Option Kind → Parser (Option α)} (hnone : f none = pure none)
    (hsome : ∀ k ∈ follow, f (some k) = pure none) : DeclinesAt (peek >>= f) follow := by
  intro c hc
  rw [peek_bind, run_look_bind]
  cases hs : c.sight with
  | none => rw [Option.map_none, hnone, StateT.run_pure]; rfl
  | some s =>
    rw [Option.map_some, hsome _ (Cursor.mem_of_sight hc s hs), StateT.run_pure]
    rfl

/-- Where the step declines nothing is repeated. -/
theorem understands_many_nil (h : DeclinesAt step follow) :
    Understands (many step) [] follow (· = []) := by
  intro c rest hc hrest
  obtain rfl : c.words = rest := hc
  exact ⟨[], c, run_many_nil fun _ => h c hrest, rfl, rfl⟩

/-- A repetition understands what its step does, and then what it does itself. -/
theorem understands_many_cons (hend : Declines step) (hstep : Advances step)
    (h : Understands step ws follow fun o => ∃ a, o = some a ∧ P a)
    (hmany : Understands (many step) ws' follow' R)
    (hmeets : ∀ rest, Meets follow' rest → Meets follow (ws' ++ rest)) :
    Understands (many step) (ws ++ ws') follow' fun l => ∃ a l', l = a :: l' ∧ P a ∧ R l' := by
  intro c rest hc hrest
  rw [List.append_assoc] at hc
  obtain ⟨_, d, ha, hd, a, rfl, hP⟩ := h c _ hc (hmeets rest hrest)
  obtain ⟨l, e, hl, he, hR⟩ := hmany d rest hd hrest
  have hrun := (run_many_eq_ok hend hstep).2 (.inr ⟨a, d, l, ha, hl, rfl⟩)
  exact ⟨a :: l, e, hrun, he, a, l, rfl, hP, hR⟩

end Many

/-! ## Literals -/

/-- Natural numbers are read from their digits, if they are integers. -/
theorem integerValue?_toString {m : Nat} (h : (m : Int) ≤ Number.highest) :
    integerValue? (toString m) = some (Int64.ofNat m) := by
  have hm : Double.readDigits 0 (toString m).toList = m := by
    rw [Nat.toString_eq_ofList_toDigits, String.toList_ofList, Double.readDigits,
      ← Nat.ofDigitChars_eq_foldl, Nat.ofDigitChars_ten_toDigits]
  rw [integerValue?, hm]
  exact if_pos h

/-- A sign that was taken before makes the number negative. -/
theorem understands_magnitude (negative : Bool) {m : Nat} (h : (m : Int) ≤ Number.highest) :
    Understands (magnitude negative) [(.integer, toString m)] follow
      (· = .int (if negative then -Int64.ofNat m else Int64.ofNat m)) := by
  refine .look fun touches => ?_
  dsimp only
  rw [integerValue?_toString h]
  exact .skip (.pure rfl)

/-- An integer is read from its words, with a minus if it is negative. -/
theorem understands_number {i : Int64} (h : (i.toInt.natAbs : Int) ≤ Number.highest) :
    Understands number (integerWords i) follow (· = .int i) := by
  rw [number_eq, integerWords]
  split
  · next hneg =>
    refine .peek ?_
    rw [if_pos rfl]
    refine (understands_magnitude true h).skip.mono ?_
    rintro _ rfl
    rw [if_pos rfl, ← Int64.ofInt_eq_ofNat, ← Int64.ofInt_neg,
      show -(i.toInt.natAbs : Int) = i.toInt by omega, Int64.ofInt_toInt]
  · next hneg =>
    refine .peek ?_
    rw [if_neg (by decide)]
    refine (understands_magnitude false h).mono ?_
    rintro _ rfl
    rw [if_neg Bool.false_ne_true, ← Int64.ofInt_eq_ofNat,
      show (i.toInt.natAbs : Int) = i.toInt by omega, Int64.ofInt_toInt]

/-! ## Levels -/

/-- The levels of the grammar, from single terms to whole expressions. -/
inductive Level where
  | term
  | power
  | product
  | sum

namespace Level

/-- What reads the level, with the parser for what stands in brackets. -/
def parser (nested : Parser Node) : Level → Parser Node
  | .term => Parser.term nested
  | .power => Parser.power nested
  | .product => Parser.product nested
  | .sum => Parser.sum nested

/-- What may follow on the level. -/
def behind : Level → List Kind
  | .sum => [.rightParen, .rightBrace, .comma]
  | .product => [.rightParen, .rightBrace, .comma, .plus, .minus]
  | .power => [.rightParen, .rightBrace, .comma, .plus, .minus, .star, .slash, .percent]
  | .term =>
    [.rightParen, .rightBrace, .comma, .plus, .minus, .star, .slash, .percent, .starStar]

end Level

/-- On the level the words are read as an expression with these forms, whatever
its labels are: with any depth that is enough for the words, and also if labels
stand behind them. -/
def Writes (level : Level) (ws : List (Kind × String)) (n : Node) : Prop :=
  ∀ depth, ws.length ≤ depth + 1 → ∀ ls : List (Kind × String), (∀ l ∈ ls, l.1 = .label) →
    Understands (level.parser (expression depth)) (ws ++ ls) level.behind fun node => node.bare = n

namespace Writes

variable {level : Level}

/-- Without labels behind them the words are read as well. -/
theorem understands (h : Writes level ws n) {depth : Nat} (hdepth : ws.length ≤ depth + 1) :
    Understands (level.parser (expression depth)) ws level.behind fun node => node.bare = n := by
  have h := h depth hdepth [] nofun
  rwa [List.append_nil] at h

/-- In brackets there is one bracket less. -/
theorem nested (h : Writes .sum ws n) {depth : Nat} (hdepth : ws.length < depth) :
    Understands (expression depth) ws Level.sum.behind fun node => node.bare = n := by
  cases depth with
  | zero => cases hdepth
  | succ depth => exact h.understands (Nat.le_of_lt hdepth)

/-- Labels stand behind any expression. -/
theorem label (h : Writes level ws n) (text : String) :
    Writes level (ws ++ [labelWord text]) n := by
  intro depth hdepth ls hls
  rw [List.append_assoc]
  refine h depth ?_ _ ?_
  · rw [List.length_append] at hdepth
    omega
  · rw [List.singleton_append, List.forall_mem_cons]
    exact ⟨rfl, hls⟩

end Writes

/-! ## Terms -/

theorem advances_label? : Advances label? :=
  .of_takes fun _ _ _ => (Coupling.Keeps.label? (R := .alone) (m := 0)).takes

/-- Labels may come before what follows. -/
theorem meets_labels (hls : ∀ l ∈ ls, l.1 = .label) (hrest : Meets follow rest) :
    Meets (.label :: follow) (ls ++ rest) := by
  intro w hw
  cases ls with
  | nil => exact .tail _ (hrest w hw)
  | cons l ls =>
    cases hw
    rw [hls w List.mem_cons_self]
    exact .head _

/-- Labels are taken up to where something else follows. -/
theorem understands_labels (hfollow : Kind.label ∉ follow) (hls : ∀ l ∈ ls, l.1 = .label) :
    Understands (many label?) ls follow fun _ => True := by
  induction ls with
  | nil =>
    refine (understands_many_nil fun c hc => ?_).mono fun _ _ => trivial
    rw [label?_eq, run_look_bind]
    split
    · next hs => exact absurd (Cursor.mem_of_sight hc _ hs) hfollow
    · rfl
  | cons l ls ih =>
    obtain ⟨k, s⟩ := l
    rw [List.forall_mem_cons] at hls
    obtain rfl : k = .label := hls.1
    have hlabel : Understands label? [(.label, s)] (.label :: follow)
        fun o => ∃ a, o = some a ∧ True := by
      rw [label?_eq]
      exact .look fun touches => .skip (.pure ⟨_, rfl, trivial⟩)
    exact (understands_many_cons declines_label? advances_label? hlabel (ih hls.2)
      fun _ => meets_labels hls.2).mono fun _ _ => trivial

/-- What is made bare loses its label. -/
theorem bare_withLabel (text : String) (node : Node) : (node.withLabel text).bare = node.bare := by
  cases node with
  | term form label => rw [Node.withLabel, Node.bare_term, Node.bare_term]
  | unsupported => rfl

/-- The words of a term, without labels. -/
theorem writes_term (h : ∀ depth, ws.length ≤ depth + 1 →
    Understands (bareTerm (expression depth)) ws (.label :: Level.term.behind)
      fun node => node.bare = n) : Writes .term ws n := by
  intro depth hdepth ls hls
  refine (h depth hdepth).bind (fun node hnode => ?_) fun _ => meets_labels hls
  refine (understands_labels (by decide) hls).andThen (fun labels _ => ?_) (List.Subset.refl _)
  split
  · exact .pure hnode
  · exact .pure ((bare_withLabel _ _).trans hnode)

section Terms

variable {nested : Parser Node}

/-- No `d` follows, so nothing is counted. -/
theorem understands_countOrDice (hfollow : Kind.d ∉ follow) (node : Node) :
    Understands (countOrDice nested node) [] follow (· = node) := by
  refine .touching_end fun o ho => ?_
  rw [if_neg]
  · exact .pure rfl
  · rintro rfl
    exact hfollow (ho .d rfl)

/-- Integers are read as they are written, except for the least one. -/
theorem writes_integer {i : Int64} (h : (i.toInt.natAbs : Int) ≤ Number.highest) :
    Writes .term (integerWords i) (.int i) := by
  refine writes_term fun depth _ => ?_
  have hnumber : Understands number (integerWords i) (.label :: Level.term.behind) (· = .int i) :=
    understands_number h
  have hbare : (Node.int i).bare = .int i := Node.bare_term ..
  rw [integerWords] at hnumber ⊢
  split
  · next hneg =>
    rw [if_pos hneg] at hnumber
    refine .peek (hnumber.andThen (fun node hnode => ?_) (List.Subset.refl _))
    subst hnode
    refine .touching_end fun o ho => ?_
    rw [if_neg]
    · exact .pure hbare
    · rintro rfl
      exact absurd (ho .d rfl) (by decide)
  · next hneg =>
    rw [if_neg hneg] at hnumber
    refine .peek (hnumber.andThen (fun node hnode => ?_) (List.Subset.refl _))
    subst hnode
    refine (understands_countOrDice (by decide) _).mono ?_
    rintro _ rfl
    exact hbare

/-- In brackets there is one bracket less to read. -/
theorem understands_parenthesized (h : Writes .sum ws n) {depth : Nat}
    (hdepth : ws.length < depth) :
    Understands (parenthesized (expression depth)) (parens ws) follow
      fun node => node.bare = n := by
  refine .expect ((h.nested hdepth).bind (fun node hnode => ?_) ?_)
  · exact .expect (.pure hnode)
  · rintro rest - w ⟨⟩
    decide

theorem Writes.inParens (h : Writes .sum ws n) : Writes .term (parens ws) n := by
  refine writes_term fun depth hdepth => .peek ?_
  have hdepth : ws.length < depth := by
    simp only [parens, List.length_append, List.length_cons, List.length_nil] at hdepth
    omega
  refine (understands_parenthesized h hdepth).andThen (fun node hnode => ?_) (List.Subset.refl _)
  refine (understands_countOrDice (by decide) _).mono ?_
  rintro _ rfl
  exact hnode

theorem Writes.call (h : Writes .sum ws n) {fn : NumFn} (hfn : functionOf? k = some fn) :
    Writes .term ((k, s) :: parens ws) (.function fn n) := by
  refine writes_term fun depth hdepth => .peek ?_
  have hdepth : ws.length < depth := by
    simp [parens] at hdepth
    omega
  have hargument : Understands (parenthesized (expression depth) >>= fun node =>
      pure (Node.function fn node)) (parens ws) (.label :: Level.term.behind)
      fun node => node.bare = .function fn n := by
    refine (understands_parenthesized h hdepth).andThen (fun node hnode => .pure ?_)
      (List.Subset.refl _)
    rw [Node.function, Node.bare_term, Form.map, hnode]
    rfl
  cases k with
  | floor | ceil | round | abs =>
    cases hfn
    exact .skip hargument
  | _ => cases hfn

end Terms

/-! ## Groups -/

/-- Words of members, each behind a comma. -/
inductive WritesMembers : List (Kind × String) → List Node → Prop
  | nil : WritesMembers [] []
  | cons {ws ws' : List (Kind × String)} {n : Node} {ns : List Node} (h : Writes .sum ws n)
    (hrest : WritesMembers ws' ns) : WritesMembers ((.comma, ",") :: ws ++ ws') (n :: ns)

theorem advances_member? (depth : Nat) : Advances (member? (expression depth)) :=
  .of_takes fun _ _ _ => (Coupling.Keeps.member? (within_alone depth)).takes

/-- Members are read one by one, each behind a comma. -/
theorem understands_members {ns : List Node} (h : WritesMembers ws ns) {depth : Nat}
    (hdepth : ws.length ≤ depth) :
    Understands (many (member? (expression depth))) ws [.rightBrace]
      fun members => members.map Node.bare = ns := by
  induction h with
  | nil =>
    refine (understands_many_nil ?_).mono (by rintro _ rfl; rfl)
    unfold member?
    rw [accept_bind]
    exact declinesAt_peek rfl (by simp)
  | @cons ws ws' n ns h hrest ih =>
    simp only [List.cons_append, List.length_cons, List.length_append] at hdepth
    have hmember : Understands (member? (expression depth)) ((.comma, ",") :: ws)
        Level.sum.behind fun o => ∃ node, o = some node ∧ node.bare = n := by
      unfold member?
      rw [accept_bind]
      refine .peek ?_
      rw [if_pos rfl]
      refine .skip ?_
      rw [if_pos rfl, map_eq_pure_bind]
      exact (h.nested (by omega)).andThen (fun node hnode => .pure ⟨node, rfl, hnode⟩)
        (List.Subset.refl _)
    refine (understands_many_cons (declines_member? _) (advances_member? depth) hmember
      (ih (by omega)) ?_).mono ?_
    · intro rest hmeets w hw
      cases hrest with
      | nil =>
        have hw := hmeets w hw
        simp only [List.mem_singleton] at hw
        rw [hw]
        decide
      | cons =>
        cases hw
        decide
    · rintro _ ⟨node, members, rfl, hnode, hmembers⟩
      rw [List.map_cons, hnode, hmembers]

/-- Nothing that may follow a term modifies a group. -/
theorem declinesAt_groupSuffix (nested : Parser Node) :
    DeclinesAt (groupSuffix nested) (.label :: Level.term.behind) := by
  refine declinesAt_touching rfl fun k hk => ?_
  simp only [Level.behind, List.mem_cons, List.not_mem_nil, or_false] at hk
  rcases hk with rfl | rfl | rfl | rfl | rfl | rfl | rfl | rfl | rfl | rfl <;> rfl

theorem Writes.inBraces {ns : List Node} (h : Writes .sum ws n) (hrest : WritesMembers ws' ns) :
    Writes .term (braces (ws ++ ws')) (.term (.group n ns []) none) := by
  refine writes_term fun depth hdepth => .peek ?_
  simp only [braces, List.cons_append, List.length_cons, List.length_append, List.length_nil]
    at hdepth
  have hgroup : Understands (group (expression depth))
      ((.leftBrace, "\x7b") :: (ws ++ (ws' ++ [(.rightBrace, "\x7d")])))
      (.label :: Level.term.behind) fun node => node.bare = .term (.group n ns []) none := by
    refine .expect ((h.nested (by omega)).bind (fun first hfirst => ?_) ?_)
    · refine (understands_members hrest (by omega)).bind (fun members hmembers => ?_) ?_
      · refine .expect ((understands_many_nil (declinesAt_groupSuffix _)).andThen
          (fun mods hmods => .pure ?_) (List.Subset.refl _))
        subst hmods
        rw [Node.bare_term, Form.map, hfirst, hmembers]
        rfl
      · rintro rest - w ⟨⟩
        decide
    -- behind the first member comes another one or the closing brace
    · rintro rest - w hw
      cases hrest with
      | nil =>
        cases hw
        decide
      | cons =>
        cases hw
        decide
  simpa using hgroup

/-! ## Chains -/

section Chains

variable {ω : Type} {opOf? : Kind → Option ω} {level : Level} {links : List (Link ω Node)}
  {depth : Nat}

/-- Words of operators and what stands to their right. -/
inductive WritesLinks (opOf? : Kind → Option ω) (level : Level) :
    List (Kind × String) → List (Link ω Node) → Prop
  | nil : WritesLinks opOf? level [] []
  | cons {k : Kind} {s : String} {ws ws' : List (Kind × String)} {op : ω} {n : Node}
    {links : List (Link ω Node)} (hop : opOf? k = some op) (h : Writes level ws n)
    (hrest : WritesLinks opOf? level ws' links) :
    WritesLinks opOf? level ((k, s) :: ws ++ ws') (⟨op, n⟩ :: links)

/-- Operators of one level, and which kinds of token may follow on it. -/
structure Joins (opOf? : Kind → Option ω) (level : Level) (follow : List Kind) : Prop where
  joins : ∀ k, (opOf? k).isSome → k ∈ level.behind
  subset : follow ⊆ level.behind
  ends : ∀ k ∈ follow, opOf? k = none

theorem Joins.advances_link? (hjoins : Joins opOf? level follow) :
    Advances (link? opOf? (level.parser (expression depth))) := by
  have hplain (kind : Kind) (op : ω) (h : opOf? kind = some op) : kind.isPlain := by
    have hkind := hjoins.joins kind (by rw [h]; rfl)
    cases level <;> revert hkind <;> cases kind <;> decide
  have hlevel (ts : List Token) (finish i : Nat) :
      (Coupling.alone : Coupling ts finish).Keeps 0 i (level.parser (expression depth))
        (level.parser (expression depth)) (Says ts i) := by
    have hwithin : (Coupling.alone : Coupling ts finish).Within i (expression depth)
        (expression depth) := within_alone depth
    cases level with
    | term => exact .term hwithin
    | power => exact .power hwithin
    | product => exact .product hwithin
    | sum => exact .sum hwithin fun _ _ => id
  exact .of_takes fun ts finish i => (Coupling.Keeps.link? hplain (fun j _ => hlevel ts finish j)
    fun h => h.elim fun _ => False.elim).takes

/-- Where no operator follows there are no links. -/
theorem understands_no_links (hjoins : Joins opOf? level follow) (operand : Parser Node) :
    Understands (many (link? opOf? operand)) [] follow
      fun tail => tail.map (Link.map Node.bare) = [] := by
  refine (understands_many_nil ?_).mono (by rintro _ rfl; rfl)
  exact declinesAt_peek rfl fun k hk => by rw [Option.bind_some, hjoins.ends k hk]

/-- Links are read one by one, with the labels behind the last one. -/
theorem understands_links (hjoins : Joins opOf? level follow)
    (h : WritesLinks opOf? level ws links) (hdepth : ws.length ≤ depth + 1)
    (hls : ∀ l ∈ ls, l.1 = .label) (hlinks : links = [] → ls = []) :
    Understands (many (link? opOf? (level.parser (expression depth)))) (ws ++ ls) follow
      fun tail => tail.map (Link.map Node.bare) = links := by
  induction h with
  | nil =>
    obtain rfl := hlinks rfl
    exact understands_no_links hjoins _
  | @cons k s ws ws' op n links hop h hrest ih =>
    simp only [List.cons_append, List.length_cons, List.length_append] at hdepth
    have hlink (ls : List (Kind × String)) (hls : ∀ l ∈ ls, l.1 = .label) :
        Understands (link? opOf? (level.parser (expression depth))) ((k, s) :: (ws ++ ls))
          level.behind fun o => ∃ l : Link ω Node, o = some l ∧ l.map Node.bare = ⟨op, n⟩ := by
      refine .peek ?_
      rw [Option.bind_some, hop]
      refine .skip ((h depth (by omega) ls hls).andThen (fun node hnode => ?_)
        (List.Subset.refl _))
      exact .pure ⟨_, rfl, by rw [Link.map, hnode]⟩
    have hcons (tail : List (Link ω Node)) (h : ∃ l tail', tail = l :: tail' ∧
        l.map Node.bare = ⟨op, n⟩ ∧ tail'.map (Link.map Node.bare) = links) :
        tail.map (Link.map Node.bare) = ⟨op, n⟩ :: links := by
      obtain ⟨l, tail', rfl, hl, htail⟩ := h
      rw [List.map_cons, hl, htail]
    have hdeclines := declines_link? opOf? (level.parser (expression depth))
    have hadvances : Advances (link? opOf? (level.parser (expression depth))) :=
      hjoins.advances_link?
    -- labels behind the last link belong to what it has on its right
    cases hrest with
    | nil =>
      have h := understands_many_cons hdeclines hadvances (hlink ls hls)
        (understands_no_links hjoins _) fun rest hrest w hw => hjoins.subset (hrest w hw)
      refine Understands.mono ?_ hcons
      simpa using h
    | @cons k' s' us us' op' m links' hop' =>
      have h := understands_many_cons hdeclines hadvances (hlink [] (by simp))
        (ih (by omega) (by simp)) ?_
      · refine Understands.mono ?_ hcons
        simpa using h
      · rintro rest - w hw
        cases hw
        exact hjoins.joins k' (by rw [hop']; rfl)

/-- **A chain**: what it starts with, then its links. -/
theorem understands_chained {build : Node → List (Link ω Node) → Node}
    (hjoins : Joins opOf? level follow) (h : Writes level ws n)
    (hlinks : WritesLinks opOf? level ws' links) (hdepth : (ws ++ ws').length ≤ depth + 1)
    (hls : ∀ l ∈ ls, l.1 = .label) :
    Understands (do
        let head ← level.parser (expression depth)
        return build head (← many (link? opOf? (level.parser (expression depth)))))
      (ws ++ ws' ++ ls) follow fun node => ∃ head tail, node = build head tail ∧ head.bare = n ∧
        tail.map (Link.map Node.bare) = links := by
  rw [List.length_append] at hdepth
  have hbehind {us : List (Kind × String)} (head : Node) (hhead : head.bare = n) (hus : Understands
        (many (link? opOf? (level.parser (expression depth)))) us follow
        fun tail => tail.map (Link.map Node.bare) = links) :
      Understands (do return build head (← many (link? opOf? (level.parser (expression depth)))))
        us follow fun node => ∃ head tail, node = build head tail ∧ head.bare = n ∧
          tail.map (Link.map Node.bare) = links :=
    hus.andThen (fun tail htail => .pure ⟨head, tail, rfl, hhead, htail⟩) (List.Subset.refl _)
  -- without links the labels stand behind the head, and else behind the last link
  cases hlinks with
  | nil =>
    have h := (h depth (by omega) ls hls).andThen
      (fun head hhead => hbehind head hhead (understands_no_links hjoins _)) hjoins.subset
    simpa using h
  | @cons k s us us' op m links' hop hm hrest =>
    have hdepth' : ((k, s) :: us ++ us').length ≤ depth + 1 := by omega
    have hsome := understands_links hjoins (.cons hop hm hrest) hdepth' hls nofun
    rw [List.append_assoc]
    refine (h.understands (by omega)).bind (fun head hhead => hbehind head hhead hsome) ?_
    rintro rest - w hw
    cases hw
    exact hjoins.joins k (by rw [hop]; rfl)

end Chains

/-- A chain is made bare part by part. -/
theorem bare_chain (head : Node) (tail : List (Link ArithOp Node)) :
    (Node.chain head tail).bare = Node.chain head.bare (tail.map (Link.map Node.bare)) := by
  cases tail with
  | nil => rfl
  | cons l tail => exact Node.bare_term ..

theorem bare_sum (head : Node) (tail : List (Link SumOp Node)) :
    (Node.sum head tail).bare = Node.sum head.bare (tail.map (Link.map Node.bare)) := by
  cases tail with
  | nil => rfl
  | cons l tail => exact Node.bare_term ..

theorem joins_powers : Joins powerOpOf? .term Level.power.behind :=
  ⟨fun k h => by cases k <;> (first | decide | cases h), by decide, by decide⟩

theorem joins_products : Joins factorOpOf? .power Level.product.behind :=
  ⟨fun k h => by cases k <;> (first | decide | cases h), by decide, by decide⟩

theorem joins_sums : Joins sumOpOf? .product Level.sum.behind :=
  ⟨fun k h => by cases k <;> (first | decide | cases h), by decide, by decide⟩

namespace Writes

/-- Terms with power signs between them are read as a chain. -/
theorem powers {links : List (Link ArithOp Node)} (h : Writes .term ws n)
    (hlinks : WritesLinks powerOpOf? .term ws' links) :
    Writes .power (ws ++ ws') (Node.chain n links) := by
  refine fun depth hdepth ls hls =>
    (understands_chained joins_powers h hlinks hdepth hls).mono ?_
  rintro _ ⟨head, tail, rfl, rfl, rfl⟩
  exact bare_chain head tail

/-- So are powers with product signs between them. -/
theorem products {links : List (Link ArithOp Node)} (h : Writes .power ws n)
    (hlinks : WritesLinks factorOpOf? .power ws' links) :
    Writes .product (ws ++ ws') (Node.chain n links) := by
  refine fun depth hdepth ls hls =>
    (understands_chained joins_products h hlinks hdepth hls).mono ?_
  rintro _ ⟨head, tail, rfl, rfl, rfl⟩
  exact bare_chain head tail

/-- Products with plus and minus between them are read as a sum. -/
theorem sums {links : List (Link SumOp Node)} (h : Writes .product ws n)
    (hlinks : WritesLinks sumOpOf? .product ws' links) :
    Writes .sum (ws ++ ws') (Node.sum n links) := by
  refine fun depth hdepth ls hls =>
    (understands_chained joins_sums h hlinks hdepth hls).mono ?_
  rintro _ ⟨head, tail, rfl, rfl, rfl⟩
  exact bare_sum head tail

/-! One expression of a level is one of the next level. -/

theorem power (h : Writes .term ws n) : Writes .power ws n := by
  have h := h.powers .nil
  rwa [List.append_nil] at h

theorem product (h : Writes .power ws n) : Writes .product ws n := by
  have h := h.products .nil
  rwa [List.append_nil] at h

theorem sum (h : Writes .product ws n) : Writes .sum ws n := by
  have h := h.sums .nil
  rwa [List.append_nil] at h

/-- **A text of such words is read to its end.** -/
theorem exists_reads {text : String} (h : Writes .sum (Token.words text.toList) n) :
    ∃ node, Reads text node ∧ node.bare = n := by
  obtain ⟨node, after, hread, hafter, hnode⟩ := h.nested (Nat.lt_succ_self _)
    (.start (tokenize text) text.utf8ByteSize) [] (List.append_nil _).symm nofun
  obtain ⟨taken, htokens, hread⟩ := read_taken hread
  rw [List.map_eq_nil_iff.1 hafter, List.append_nil] at htokens
  subst htokens
  exact ⟨node, hread _ _ (Nat.le_refl _), hnode⟩

end Writes

end Parser

end DiceNotation
