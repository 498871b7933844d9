import DiceNotation.Proofs.Json.RoundTrip

/-!
# Expressions that are lost

An infinity or a NaN is written as nothing, and nothing is no number: a written
expression is read back only if all its doubles are finite
(`Node.finite_of_readJson`). So reading a record takes reading each of its parts,
and there is one lemma for each kind of record.
-/

namespace DiceNotation

/-- Only finite numbers come back. -/
theorem Number.isFinite_of_ofJson? {v v' : Number} (h : ofJson? v.toJson = some v') :
    v.isFinite := by
  cases v with
  | int n => rfl
  | float x =>
    rw [toJson] at h
    split at h
    · assumption
    · cases h

/-! ## Fields and items -/

namespace Json

variable {α : Type} {read : Json → Option α} {write : α → Json}

/-- If a list comes back, each of its items does. -/
theorem isSome_of_list?_map {l l' : List α} (h : list? read (.array (l.map write)) = some l') :
    ∀ a ∈ l, (read (write a)).isSome := by
  induction l generalizing l' with
  | nil => simp
  | cons a l ih =>
    simp only [list?, List.map_cons, List.mapM_cons, Option.bind_eq_bind,
      Option.bind_eq_some_iff] at h ih
    obtain ⟨b, hb, l'', hl, -⟩ := h
    rw [List.forall_mem_cons]
    exact ⟨by rw [hb]; rfl, ih hl⟩

/-- A list that is left out when it is empty has been read if it was not. -/
theorem isSome_of_orElse?_nonempty (name : String) {l l' : List α}
    (h : orElse? [] (list? read) ((nonempty name (l.map write)).lookup name) = some l') :
    ∀ a ∈ l, (read (write a)).isSome := by
  cases l with
  | nil => simp
  | cons a l =>
    have h : list? read (.array ((a :: l).map write)) = some l' := by
      simpa [nonempty, orElse?] using h
    exact isSome_of_list?_map h

/-- If an optional part comes back, it does so as a part. -/
theorem isSome_of_optional?_map {o o' : Option α} (hnull : ∀ a ∈ o, write a ≠ .null)
    (h : optional? read (o.map write) = some o') : ∀ a ∈ o, (read (write a)).isSome := by
  rintro a rfl
  have hwrite := hnull a rfl
  simp only [Option.map_some, optional?] at h
  obtain ⟨b, hb, -⟩ := Option.map_eq_some_iff.1 h
  rw [hb]
  rfl

end Json

/-! ## Records of parts -/

section Records

variable {ε : Type} {write : ε → Json} {part : Json → Option ε}

/-- If a condition comes back, its target does. -/
theorem Condition.isSome_of_ofFields? {targetName : String} {c c' : Condition ε}
    {field : String → Option Json} (htarget : field targetName = some (write c.target))
    (h : ofFields? part targetName field = some c') : (part (write c.target)).isSome := by
  simp only [ofFields?, htarget, Option.bind_eq_bind, Option.bind_eq_some_iff] at h
  obtain ⟨-, -, -, -, -, ⟨⟩, b, hb, -⟩ := h
  rw [hb]
  rfl

/-- If a modifier comes back, its operands do. -/
theorem Modifier.isSome_of_ofJson? {m : Modifier ε}
    (h : (ofJson? part (m.map write).toJson).isSome) :
    ∀ x ∈ m.operands, (part (write x)).isSome := by
  obtain ⟨m', h⟩ := Option.isSome_iff_exists.1 h
  match m with
  | .select action extreme count =>
    simp [ofJson?, toJson, Modifier.map, Json.typed?_record, name, ofTag?_selection,
      Json.fields?_record, List.lookup_cons, Option.bind_eq_some_iff] at h
    obtain ⟨-, -, b, hb, -⟩ := h
    simp [operands, hb]
  | .test meaning condition =>
    simp [ofJson?, toJson, Modifier.map, Json.typed?_record, name, ofTag?_test,
      Json.fields?_record, Option.bind_eq_some_iff] at h
    obtain ⟨c, hc, -⟩ := h
    simpa [operands] using Condition.isSome_of_ofFields? (c := condition) rfl hc
  | .again mechanic none => simp [operands]
  | .again mechanic (some trigger) =>
    simp only [ofJson?, toJson, name, map, Option.map_some, Json.present, Json.typed?_record,
      Option.bind_eq_bind, Option.bind_some, ofTag?_mechanic, Json.fields?_record,
      List.lookup_cons, Json.optional?, String.reduceBEq, BEq.rfl, Json.fields?_object,
      Option.bind_eq_some_iff, Option.map_eq_some_iff] at h
    obtain ⟨-, ⟨c, hc, -⟩, -⟩ := h
    simpa [operands] using Condition.isSome_of_ofFields? (c := trigger) rfl hc
  | .unsupported => simp [operands]

/-- If a match comes back, its target and its least number do. -/
theorem Matching.isSome_of_ofJson? {m : Matching ε} (hnull : ∀ x, write x ≠ .null)
    (h : (ofJson? part (m.map write).toJson).isSome) :
    ∀ x ∈ m.operands, (part (write x)).isSome := by
  obtain ⟨m', h⟩ := Option.isSome_iff_exists.1 h
  obtain ⟨least, counts, compare, target⟩ := m
  simp [ofJson?, toJson, Matching.map, Json.fields?_object, List.lookup_cons, List.lookup_append,
    Json.lookup_present, Json.bool?, Option.bind_eq_some_iff] at h
  obtain ⟨b, hb, c, hc, target', htarget, -⟩ := h
  simp [operands, hb]
  exact Json.isSome_of_optional?_map (fun x _ => hnull x) htarget

/-- If a link comes back, its term does. -/
theorem Link.isSome_of_ofJson? {ω : Type} {symbol : ω → String} {op? : Json → Option ω}
    {l : Link ω ε} (h : (ofJson? part op? ((l.map write).toJson symbol)).isSome) :
    (part (write l.term)).isSome := by
  obtain ⟨l', h⟩ := Option.isSome_iff_exists.1 h
  simp [ofJson?, toJson, Link.map, Json.fields?_object, List.lookup_cons,
    Option.bind_eq_some_iff] at h
  obtain ⟨-, -, b, hb, -⟩ := h
  rw [hb]
  rfl

/-- If the sides come back, their expression does. -/
theorem Sides.isSome_of_ofJson? {sides : Sides ε}
    (hfate : ∀ x content, (write x).typed? types ≠ some ("fate", content))
    (h : (ofJson? part (sides.map write).toJson).isSome) :
    ∀ x ∈ sides.parts, (part (write x)).isSome := by
  cases sides with
  | fate => simp [parts]
  | numeric faces =>
    simp only [Sides.map, toJson, ofJson?] at h
    split at h
    next content heq => exact absurd heq (hfate faces content)
    next => simpa [parts] using h

/-! ## Forms -/

/-- If all links come back, their terms do. -/
theorem Link.isSome_of_list? {ω : Type} {symbol : ω → String} {op? : Json → Option ω}
    {tail : List (Link ω ε)} {links : List (Link ω ε)}
    (h : Json.list? (ofJson? part op?) (.array ((tail.map (map write)).map (toJson symbol))) =
      some links) :
    ∀ x ∈ tail.map term, (part (write x)).isSome := by
  rw [List.map_map] at h
  simpa using fun l hl => isSome_of_ofJson? (Json.isSome_of_list?_map h l hl)

/-- If all modifiers come back, their operands do. -/
theorem Modifier.isSome_of_orElse? (name : String) {mods mods' : List (Modifier ε)}
    (h : Json.orElse? [] (Json.list? (ofJson? part))
      ((Json.nonempty name (mods.map (toJson ∘ map write))).lookup name) = some mods') :
    ∀ m ∈ mods, ∀ x ∈ m.operands, (part (write x)).isSome :=
  fun m hm => isSome_of_ofJson? (Json.isSome_of_orElse?_nonempty name h m hm)

/-- **A form that is read has parts that are**, and is no infinite number. -/
theorem Form.isSome_of_ofFields? {form form' : Form ε} {label : Option String}
    (hnull : ∀ x, write x ≠ .null)
    (hfate : ∀ x content, (write x).typed? Sides.types ≠ some ("fate", content))
    (h : ofFields? part (form.map write).toRecord.1 (fun key =>
      (("type", Json.string (form.map write).toRecord.1) ::
        ((form.map write).toRecord.2 ++ Json.present "label" Json.string label)).lookup key) =
      some form') :
    (∀ v, form = .number v → v.isFinite) ∧ ∀ x ∈ form.parts, (part (write x)).isSome := by
  cases form with
  | number v =>
    simp [Form.map, toRecord, ofFields?, List.lookup_cons, Option.bind_eq_some_iff] at h
    obtain ⟨v', hv, -⟩ := h
    refine ⟨?_, by simp⟩
    rintro _ ⟨⟩
    exact Number.isFinite_of_ofJson? hv
  | inline expr =>
    simp [Form.map, toRecord, ofFields?, List.lookup_cons, Option.bind_eq_some_iff] at h
    obtain ⟨b, hb, -⟩ := h
    simp [hb]
  | function fn arg =>
    simp [Form.map, toRecord, ofFields?, List.lookup_cons, Option.bind_eq_some_iff] at h
    obtain ⟨-, -, b, hb, -⟩ := h
    simp [hb]
  | sum head tail =>
    simp [Form.map, toRecord, ofFields?, List.lookup_cons, Option.bind_eq_some_iff,
      -List.map_map] at h
    obtain ⟨b, hb, links, hlinks, -⟩ := h
    refine ⟨by simp, ?_⟩
    rw [parts_sum, List.forall_mem_cons]
    exact ⟨by rw [hb]; rfl, Link.isSome_of_list? hlinks⟩
  | chain head tail =>
    simp [Form.map, toRecord, ofFields?, List.lookup_cons, Option.bind_eq_some_iff,
      -List.map_map] at h
    obtain ⟨b, hb, links, hlinks, -⟩ := h
    refine ⟨by simp, ?_⟩
    rw [parts_chain, List.forall_mem_cons]
    exact ⟨by rw [hb]; rfl, Link.isSome_of_list? hlinks⟩
  | group first rest mods =>
    simp [Form.map, toRecord, ofFields?, List.lookup_cons, List.lookup_append,
      Json.lookup_present, Option.bind_eq_some_iff, ← List.map_cons] at h
    obtain ⟨members, hrolls, h⟩ := h
    cases members with
    | nil => cases h
    | cons first' rest' =>
      obtain ⟨mods', hmods, -⟩ := Option.bind_eq_some_iff.1 h
      have hmembers := List.forall_mem_cons.1 (Json.isSome_of_list?_map hrolls)
      have hmods := Modifier.isSome_of_orElse? "mods" hmods
      exact ⟨by simp, forall_parts_group.2 ⟨hmembers.1, hmembers.2, hmods⟩⟩
  | die spec =>
    obtain ⟨sides, count, mods, targets, matching, sort⟩ := spec
    simp [Form.map, DieSpec.map, toRecord, ofFields?, List.lookup_cons, List.lookup_append,
      Json.lookup_present, Json.lookup_nonempty_of_ne, Option.bind_eq_some_iff] at h
    obtain ⟨sides', hsides, count', hcount, mods', hmods, targets', htargets, matching', hmatching,
      -⟩ := h
    refine ⟨by simp, forall_parts_die.2 ⟨?count, ?sides, ?mods, ?targets, ?matching⟩⟩
    case count =>
      rw [hcount]
      rfl
    case sides => exact Sides.isSome_of_ofJson? hfate (by rw [hsides]; rfl)
    case mods => exact Modifier.isSome_of_orElse? "mods" hmods
    case targets => exact Modifier.isSome_of_orElse? "targets" htargets
    case matching =>
      intro m hm
      have hread := Json.isSome_of_optional?_map (by simp [Matching.toJson]) hmatching m hm
      exact Matching.isSome_of_ofJson? hnull hread

end Records

/-! ## Trees -/

/-- **Only finite expressions are read back**, by a reader of any depth. -/
theorem Node.finite_of_readJson {n n' : Node} {depth : Nat}
    (h : readJson depth n.toJson = some n') : n.Finite := by
  induction n using Node.induction generalizing depth n' with
  | unsupported => exact .unsupported
  | term form label ih =>
    cases depth with
    | zero => cases h
    | succ depth =>
      obtain ⟨names, hnames⟩ := Form.exists_lookup_types (form.map toJson)
      simp only [toJson_term, readJson, Json.typed?_record, Option.bind_eq_bind, Option.bind_some,
        hnames, Json.fields?_record, Option.bind_eq_some_iff] at h
      obtain ⟨form', hform, -⟩ := h
      obtain ⟨hnumber, hparts⟩ :=
        Form.isSome_of_ofFields? toJson_ne_null typed?_toJson_ne_fate hform
      refine .term hnumber fun x hx => ?_
      obtain ⟨x', hx'⟩ := Option.isSome_iff_exists.1 (hparts x hx)
      exact ih x hx hx'

/-- **Exactly the finite expressions survive** being written and read, unchanged:
the others are not read at all. -/
theorem Node.ofJson?_toJson (n : Node) [Decidable n.Finite] :
    ofJson? n.toJson = if n.Finite then some n else none := by
  obtain ⟨tag, fields, hn, -⟩ := toJson_eq_record n
  have hread : ofJson? n.toJson = readJson n.toJson.depth n.toJson := by
    rw [hn]
    rfl
  rw [hread]
  split
  · next h => exact readJson_toJson h (Nat.le_refl _)
  · next h => exact Option.eq_none_iff_forall_ne_some.2 fun n' hn' => h (finite_of_readJson hn')

end DiceNotation
