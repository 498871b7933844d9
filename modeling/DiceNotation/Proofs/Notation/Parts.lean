import DiceNotation.Notation.Node

/-!
# The parts of a form

The parts of a form stand in two kinds of places. What its `terms` give is
kept in the result: a count, sides, members, the terms of a chain. Its
`operands` belong to modifiers, which take their values and nothing else.

`Node.induction` is the induction over expressions that this makes: a property
that a form has whenever its parts have it is one of every tree.
-/

namespace DiceNotation

variable {ε φ : Type}

/-! ## Where parts stand -/

def Sides.parts : Sides ε → List ε
  | .fate => []
  | .numeric faces => [faces]

/-- The expression that a modifier takes a value from, if it has one. -/
def Modifier.operands : Modifier ε → List ε
  | .select _ _ count => [count]
  | .test _ condition => [condition.target]
  | .again _ (some trigger) => [trigger.target]
  | .again _ none | .unsupported => []

def Matching.operands (m : Matching ε) : List ε := m.least :: m.target.toList

namespace Form

/-- The form is a die specification. -/
def isDie : Form ε → Bool
  | .die _ => true
  | _ => false

/-- The modifiers written on a form, in the order in which they apply. -/
def modifiers : Form ε → List (Modifier ε)
  | .die spec => spec.mods ++ spec.targets
  | .group _ _ mods => mods
  | _ => []

def matching? : Form ε → Option (Matching ε)
  | .die spec => spec.matching
  | _ => none

/-- The parts whose results a form keeps. -/
def terms : Form ε → List ε
  | .number _ => []
  | .inline expr => [expr]
  | .die spec => spec.count :: spec.sides.parts
  | .group first rest _ => first :: rest
  | .sum head tail => head :: tail.map Link.term
  | .chain head tail => head :: tail.map Link.term
  | .function _ arg => [arg]

/-- The parts that modifiers and matches take values from. -/
def operands (form : Form ε) : List ε :=
  form.modifiers.flatMap Modifier.operands ++ form.matching?.toList.flatMap Matching.operands

/-- All parts of a form. -/
def parts (form : Form ε) : List ε := form.terms ++ form.operands

@[simp] theorem parts_number (value : Number) : (number value : Form ε).parts = [] := rfl

@[simp] theorem parts_inline (expr : ε) : (inline expr).parts = [expr] := rfl

@[simp] theorem parts_function (fn : NumFn) (arg : ε) : (function fn arg).parts = [arg] := rfl

@[simp] theorem parts_sum (head : ε) (tail : List (Link SumOp ε)) :
    (sum head tail).parts = head :: tail.map Link.term := List.append_nil _

@[simp] theorem parts_chain (head : ε) (tail : List (Link ArithOp ε)) :
    (chain head tail).parts = head :: tail.map Link.term := List.append_nil _

theorem mem_parts_of_mem_terms {form : Form ε} {x : ε} (h : x ∈ form.terms) : x ∈ form.parts :=
  List.mem_append_left _ h

theorem mem_parts_of_mem_operands {form : Form ε} {x : ε} (h : x ∈ form.operands) :
    x ∈ form.parts :=
  List.mem_append_right _ h

theorem mem_operands_of_mem_modifiers {form : Form ε} {m : Modifier ε} {x : ε}
    (hm : m ∈ form.modifiers) (hx : x ∈ m.operands) : x ∈ form.operands :=
  List.mem_append_left _ (List.mem_flatMap.2 ⟨m, hm, hx⟩)

theorem mem_operands_of_mem_matching? {form : Form ε} {m : Matching ε} {x : ε}
    (hm : m ∈ form.matching?) (hx : x ∈ m.operands) : x ∈ form.operands :=
  List.mem_append_right _ (List.mem_flatMap.2 ⟨m, Option.mem_toList.2 hm, hx⟩)

/-- A group's operands are those of its modifiers. -/
theorem mem_operands_group {first : ε} {rest : List ε} {mods : List (Modifier ε)} {x : ε} :
    x ∈ (group first rest mods).operands ↔ ∃ m ∈ mods, x ∈ m.operands := by
  simp [operands, modifiers, matching?]

/-- Dice have operands in their modifiers, in their targets and in their match. -/
theorem mem_operands_die {spec : DieSpec ε} {x : ε} :
    x ∈ (die spec).operands ↔ (∃ m ∈ spec.mods, x ∈ m.operands) ∨
      (∃ m ∈ spec.targets, x ∈ m.operands) ∨ ∃ m ∈ spec.matching, x ∈ m.operands := by
  simp [operands, modifiers, matching?]

/-- What is to hold of all parts of a group, written out. -/
theorem forall_parts_group {first : ε} {rest : List ε} {mods : List (Modifier ε)} {P : ε → Prop} :
    (∀ x ∈ (group first rest mods).parts, P x) ↔
      P first ∧ (∀ x ∈ rest, P x) ∧ ∀ m ∈ mods, ∀ x ∈ m.operands, P x := by
  simp only [parts, terms, List.forall_mem_append, List.forall_mem_cons, mem_operands_group]
  grind

/-- What is to hold of all parts of dice, written out. -/
theorem forall_parts_die {spec : DieSpec ε} {P : ε → Prop} :
    (∀ x ∈ (die spec).parts, P x) ↔
      P spec.count ∧ (∀ x ∈ spec.sides.parts, P x) ∧
        (∀ m ∈ spec.mods, ∀ x ∈ m.operands, P x) ∧
        (∀ m ∈ spec.targets, ∀ x ∈ m.operands, P x) ∧
        ∀ m ∈ spec.matching, ∀ x ∈ m.operands, P x := by
  simp only [parts, terms, List.forall_mem_append, List.forall_mem_cons, mem_operands_die]
  grind

end Form

/-! ## Parts and replacing -/

section Map

variable (f : ε → φ)

@[simp] theorem Sides.parts_map (sides : Sides ε) : (sides.map f).parts = sides.parts.map f := by
  cases sides <;> rfl

@[simp] theorem Modifier.operands_map (m : Modifier ε) :
    (m.map f).operands = m.operands.map f := by
  match m with
  | .select .. | .test .. | .again _ (some _) | .again _ none | .unsupported => rfl

@[simp] theorem Modifier.isTarget_map (m : Modifier ε) : (m.map f).isTarget = m.isTarget := by
  match m with
  | .select .. | .again .. | .unsupported => rfl
  | .test .success _ | .test .failure _ | .test .crit _ | .test .critfail _ => rfl

@[simp] theorem Matching.operands_map (m : Matching ε) :
    (m.map f).operands = m.operands.map f := by
  simp [Matching.operands, Matching.map]
  cases m.target <;> rfl

@[simp] theorem Form.isDie_map (form : Form ε) : (form.map f).isDie = form.isDie := by
  cases form <;> rfl

@[simp] theorem Form.terms_map (form : Form ε) : (form.map f).terms = form.terms.map f := by
  cases form <;> simp [Form.map, Form.terms, DieSpec.map, Link.map]

@[simp] theorem Form.modifiers_map (form : Form ε) :
    (form.map f).modifiers = form.modifiers.map (Modifier.map f) := by
  cases form <;> simp [Form.map, Form.modifiers, DieSpec.map]

theorem DieSpec.modifiers_map (spec : DieSpec ε) :
    (Form.die (spec.map f)).modifiers = (Form.die spec).modifiers.map (Modifier.map f) :=
  Form.modifiers_map f (.die spec)

@[simp] theorem Form.matching?_map (form : Form ε) :
    (form.map f).matching? = form.matching?.map (Matching.map f) := by
  cases form <;> rfl

@[simp] theorem Form.operands_map (form : Form ε) :
    (form.map f).operands = form.operands.map f := by
  rw [Form.operands, Form.operands, Form.modifiers_map, Form.matching?_map, List.map_append,
    List.map_flatMap, List.flatMap_map]
  congr 1
  · simp
  · cases form.matching? <;> simp

/-- The parts of a form with its parts replaced are the replaced parts, in the same order.
-/
@[simp] theorem Form.parts_map (form : Form ε) : (form.map f).parts = form.parts.map f := by
  simp [Form.parts]

end Map

/-! ## Replacing twice, and part by part -/

section MapMap

variable {χ : Type} (f : ε → φ) (g : φ → χ)

@[simp] theorem Sides.map_map (sides : Sides ε) : (sides.map f).map g = sides.map (g ∘ f) := by
  cases sides <;> rfl

@[simp] theorem Modifier.map_map (m : Modifier ε) : (m.map f).map g = m.map (g ∘ f) := by
  match m with
  | .select .. | .test .. | .again _ (some _) | .again _ none | .unsupported => rfl

@[simp] theorem Matching.map_map (m : Matching ε) : (m.map f).map g = m.map (g ∘ f) := by
  simp [Matching.map]

/-- Replacing twice is replacing once. -/
@[simp] theorem Form.map_map (form : Form ε) : (form.map f).map g = form.map (g ∘ f) := by
  have hmatching : Matching.map g ∘ Matching.map f = Matching.map (g ∘ f) :=
    funext (Matching.map_map f g)
  cases form <;> simp [Form.map, DieSpec.map, Link.map, hmatching]

end MapMap

@[simp] theorem Modifier.map_id (m : Modifier ε) : m.map id = m := by
  match m with
  | .select .. | .test .. | .again _ (some _) | .again _ none | .unsupported => rfl

@[simp] theorem Form.map_id (form : Form ε) : form.map id = form := by
  have hmodifier : Modifier.map (id : ε → ε) = id := funext Modifier.map_id
  have hmatching : Matching.map (id : ε → ε) = id := funext fun m => by simp [Matching.map]
  have hlink {ω : Type} : (Link.map id : Link ω ε → Link ω ε) = id := rfl
  cases form with
  | die spec =>
    obtain ⟨sides, count, mods, targets, matching, sort⟩ := spec
    have hsides : sides.map id = sides := by cases sides <;> rfl
    simp [Form.map, DieSpec.map, hmodifier, hmatching, hsides]
  | number | inline | group | sum | chain | function => simp [Form.map, hmodifier, hlink]

section Congr

variable {f g : ε → φ}

/-- Replacements that agree on the operands of a modifier give the same. -/
theorem Modifier.map_congr {m : Modifier ε} (h : ∀ x ∈ m.operands, f x = g x) :
    m.map f = m.map g := by
  match m with
  | .select _ _ count => simp [Modifier.map, h count (by simp [operands])]
  | .test _ condition =>
    simp [Modifier.map, Condition.map, h condition.target (by simp [operands])]
  | .again _ (some trigger) =>
    simp [Modifier.map, Condition.map, h trigger.target (by simp [operands])]
  | .again _ none | .unsupported => rfl

theorem Matching.map_congr {m : Matching ε} (h : ∀ x ∈ m.operands, f x = g x) :
    m.map f = m.map g := by
  obtain ⟨least, counts, compare, target⟩ := m
  cases target with
  | none => simp [Matching.map, h least (by simp [operands])]
  | some target =>
    simp [Matching.map, h least (by simp [operands]), h target (by simp [operands])]

theorem Sides.map_congr {sides : Sides ε} (h : ∀ x ∈ sides.parts, f x = g x) :
    sides.map f = sides.map g := by
  cases sides with
  | fate => rfl
  | numeric faces => simp [Sides.map, h faces (by simp [parts])]

/-- Two replacements that agree on all parts of a form make the same of it. -/
theorem Form.map_congr {form : Form ε} (h : ∀ x ∈ form.parts, f x = g x) :
    form.map f = form.map g := by
  have hterm {x : ε} (hx : x ∈ form.terms) : f x = g x := h x (mem_parts_of_mem_terms hx)
  have hmod {m : Modifier ε} (hm : m ∈ form.modifiers) : m.map f = m.map g :=
    Modifier.map_congr fun x hx =>
      h x (mem_parts_of_mem_operands (mem_operands_of_mem_modifiers hm hx))
  have hmatching {m : Matching ε} (hm : m ∈ form.matching?) : m.map f = m.map g :=
    Matching.map_congr fun x hx =>
      h x (mem_parts_of_mem_operands (mem_operands_of_mem_matching? hm hx))
  cases form with
  | number value => rfl
  | inline expr | function _ expr => rw [Form.map, Form.map, hterm List.mem_cons_self]
  | die spec =>
    have hmods : ∀ m ∈ spec.mods, m.map f = m.map g :=
      fun m hm => hmod (List.mem_append_left _ hm)
    have htargets : ∀ m ∈ spec.targets, m.map f = m.map g :=
      fun m hm => hmod (List.mem_append_right _ hm)
    have hsides : spec.sides.map f = spec.sides.map g :=
      Sides.map_congr fun x hx => hterm (List.mem_cons_of_mem _ hx)
    have hmatchings : spec.matching.map (Matching.map f) = spec.matching.map (Matching.map g) :=
      Option.map_congr fun m hm => hmatching hm
    have hcount : f spec.count = g spec.count := hterm List.mem_cons_self
    simp only [Form.map, DieSpec.map, List.map_congr_left hmods, List.map_congr_left htargets,
      hsides, hmatchings, hcount]
  | group first rest mods =>
    have hrest : ∀ x ∈ rest, f x = g x := fun x hx => hterm (List.mem_cons_of_mem _ hx)
    have hmods : ∀ m ∈ mods, m.map f = m.map g := fun m hm => hmod hm
    simp only [Form.map, hterm List.mem_cons_self, List.map_congr_left hrest,
      List.map_congr_left hmods]
  | sum head tail | chain head tail =>
    have htail : ∀ l ∈ tail, l.map f = l.map g := fun l hl => by
      rw [Link.map, Link.map, hterm (List.mem_cons_of_mem _ (List.mem_map_of_mem hl))]
    simp only [Form.map, hterm List.mem_cons_self, List.map_congr_left htail]

end Congr

/-! ## Induction over expressions -/

/-- Operands are smaller than their modifier: the recursion over expressions ends because of
this and of the lemmas below. -/
theorem Modifier.sizeOf_lt_of_mem_operands {m : Modifier Node} {n : Node}
    (h : n ∈ m.operands) : sizeOf n < sizeOf m := by
  match m with
  | .select _ _ count | .test _ ⟨_, target⟩ | .again _ (some ⟨_, target⟩) =>
    obtain rfl : n = _ := List.mem_singleton.1 h
    simp only [select.sizeOf_spec, test.sizeOf_spec, again.sizeOf_spec, Condition.mk.sizeOf_spec,
      Option.some.sizeOf_spec]
    omega
  | .again _ none | .unsupported => simp [Modifier.operands] at h

theorem Matching.sizeOf_lt_of_mem_operands {m : Matching Node} {n : Node}
    (h : n ∈ m.operands) : sizeOf n < sizeOf m := by
  obtain ⟨least, counts, compare, target⟩ := m
  rcases List.mem_cons.1 h with rfl | h
  · simp
    omega
  · obtain rfl : target = some n := by simpa using h
    simp
    omega

theorem Link.sizeOf_lt_of_mem_terms {ω : Type} [SizeOf ω] {tail : List (Link ω Node)} {n : Node}
    (h : n ∈ tail.map Link.term) : sizeOf n < sizeOf tail := by
  obtain ⟨⟨op, term⟩, hl, rfl⟩ := List.mem_map.1 h
  have := List.sizeOf_lt_of_mem hl
  simp_all
  omega

theorem Form.sizeOf_lt_of_mem_terms {form : Form Node} {n : Node} (h : n ∈ form.terms) :
    sizeOf n < sizeOf form := by
  cases form <;> simp only [Form.terms, List.not_mem_nil, List.mem_cons, or_false] at h
  case inline expr => simp [h]
  case function fn arg =>
    subst h
    rw [Form.function.sizeOf_spec]
    omega
  case die spec =>
    obtain ⟨sides, count, mods, targets, matching, sort⟩ := spec
    cases sides <;> simp_all [Sides.parts] <;> rcases h with rfl | rfl <;> omega
  case group first rest mods =>
    rcases h with rfl | h
    · simp
      omega
    · have := List.sizeOf_lt_of_mem h
      simp
      omega
  case sum head tail =>
    rcases h with rfl | h
    · simp
      omega
    · have := Link.sizeOf_lt_of_mem_terms h
      simp
      omega
  case chain head tail =>
    rcases h with rfl | h
    · simp
      omega
    · have := Link.sizeOf_lt_of_mem_terms h
      simp
      omega

theorem Form.sizeOf_lt_of_mem_operands {form : Form Node} {n : Node} (h : n ∈ form.operands) :
    sizeOf n < sizeOf form := by
  cases form <;> simp [Form.operands, Form.modifiers, Form.matching?] at h
  case die spec =>
    obtain ⟨sides, count, mods, targets, matching, sort⟩ := spec
    rcases h with ⟨m, hm, hn⟩ | ⟨m, hm, hn⟩ | ⟨m, hm, hn⟩
    · have := List.sizeOf_lt_of_mem hm
      have := Modifier.sizeOf_lt_of_mem_operands hn
      simp_all
      omega
    · have := List.sizeOf_lt_of_mem hm
      have := Modifier.sizeOf_lt_of_mem_operands hn
      simp_all
      omega
    · have := Matching.sizeOf_lt_of_mem_operands hn
      simp_all
      omega
  case group first rest mods =>
    obtain ⟨m, hm, hn⟩ := h
    have := List.sizeOf_lt_of_mem hm
    have := Modifier.sizeOf_lt_of_mem_operands hn
    simp
    omega

/-- Parts are smaller than the form that they stand in. -/
theorem Form.sizeOf_lt_of_mem_parts {form : Form Node} {n : Node} (h : n ∈ form.parts) :
    sizeOf n < sizeOf form := by
  rcases List.mem_append.1 h with h | h
  · exact Form.sizeOf_lt_of_mem_terms h
  · exact Form.sizeOf_lt_of_mem_operands h

/-- **Induction over expressions**, through the parts of each form. -/
theorem Node.induction {P : Node → Prop}
    (term : ∀ form label, (∀ n ∈ form.parts, P n) → P (.term form label))
    (unsupported : P .unsupported) : ∀ n, P n
  | .term form label => term form label fun n _ => Node.induction term unsupported n
  | .unsupported => unsupported
termination_by n => n
decreasing_by
  have := Form.sizeOf_lt_of_mem_parts ‹_›
  simp only [Node.term.sizeOf_spec]
  omega

/-- A property of the answers of a fold: layer by layer. -/
theorem Node.fold_induction {α : Type} {term : Form α → Option String → α} {unsupported : α}
    {P : α → Prop} (hterm : ∀ form label, (∀ a ∈ form.parts, P a) → P (term form label))
    (hunsupported : P unsupported) (n : Node) : P (n.fold term unsupported) := by
  induction n using Node.induction with
  | term form label ih =>
    rw [Node.fold_term]
    apply hterm
    simpa using ih
  | unsupported => rwa [Node.fold_unsupported]

end DiceNotation
