import DiceNotation.Json.Node
import DiceNotation.Proofs.Notation.Parts

/-!
# Expressions read back

An expression that is written and read again is the same expression
(`Node.ofJson?_toJson_eq_some`), as long as its doubles are finite: infinities and NaNs
have no form of their own. Each kind of record is read back if its parts are, so
there is one lemma for each, and one induction over the tree.

The reader goes as deep as the data is nested, and what is written for a part is
nested less deeply than what it is part of (`Form.depth_lt_of_mem_parts`).
-/

namespace DiceNotation

/-! ## Fields and items -/

namespace Json

/-- A field that is present is found under its name and under no other. -/
theorem lookup_present {α : Type} (name key : String) (write : α → Json) (o : Option α) :
    (present name write o).lookup key = if key == name then o.map write else none := by
  cases o with
  | none => simp [present]
  | some a => cases hkey : key == name <;> simp [present, List.lookup_cons, hkey]

/-- A list that is left out when it is empty reads back as the empty list. -/
theorem orElse?_lookup_nonempty {α : Type} {read : Json → Option α} (name : String)
    {items : List Json} {l : List α} (h : list? read (.array items) = some l) :
    orElse? [] (list? read) ((nonempty name items).lookup name) = some l := by
  cases items with
  | nil =>
    obtain rfl : l = [] := by simpa [list?] using h.symm
    rfl
  | cons item rest => simpa [nonempty, orElse?] using h

theorem lookup_nonempty_of_ne {name key : String} (h : key ≠ name) (items : List Json) :
    (nonempty name items).lookup key = none := by
  cases items <;> simp [nonempty, h]

/-- An optional field comes back if what stands in it does and is not written as null. -/
theorem optional?_present {α : Type} {read : Json → Option α} {write : α → Json}
    {o : Option α} (h : ∀ a ∈ o, write a ≠ .null ∧ read (write a) = some a) :
    optional? read (o.map write) = some o := by
  cases o with
  | none => rfl
  | some a =>
    obtain ⟨hnull, hread⟩ := h a rfl
    simp [optional?, hread]

/-- A list comes back if each of its items does. -/
theorem list?_map {α : Type} {read : Json → Option α} {write : α → Json} {l : List α}
    (h : ∀ a ∈ l, read (write a) = some a) : list? read (.array (l.map write)) = some l := by
  induction l with
  | nil => rfl
  | cons a l ih =>
    have hl := ih fun b hb => h b (List.mem_cons_of_mem _ hb)
    rw [list?] at hl ⊢
    simp [h a List.mem_cons_self, hl]

/-- The fields of an object are found by their names. -/
theorem fields?_object (names : List String) (fields : List (String × Json)) :
    (object fields).fields? names = some fun name => fields.lookup name := rfl

/-- The type of a record is its tag, and the rest of it is read by names. -/
theorem typed?_record (names : List String) (tag : String) (fields : List (String × Json)) :
    (record tag fields).typed? names = some (tag, record tag fields) := rfl

theorem fields?_record (names : List String) (tag : String) (fields : List (String × Json)) :
    (record tag fields).fields? names =
      some fun name => (("type", Json.string tag) :: fields).lookup name := rfl

end Json

/-! ## Numbers and symbols -/

/-- The number is an integer, or a double that is neither infinite nor a NaN. -/
def Number.isFinite : Number → Bool
  | .int _ => true
  | .float x => x.isFinite

/-- Finite numbers come back. -/
theorem Number.ofJson?_toJson {v : Number} (h : v.isFinite) : ofJson? v.toJson = some v := by
  cases v with
  | int n =>
    have hfits : Fits n.toInt := ⟨n.le_toInt, Int.le_sub_one_of_lt n.toInt_lt⟩
    rw [toJson, ofJson?, ofExact, if_pos hfits, Int64.ofInt_toInt]
  | float x =>
    have hx : x.isFinite = true := h
    simp [toJson, ofJson?, hx]

theorem Comparison.ofJson?_toJson (c : Comparison) : ofJson? c.toJson = some c := by
  cases c <;> rfl

theorem SumOp.ofJson?_symbol (op : SumOp) : ofJson? (.string op.symbol) = some op := by
  cases op <;> rfl

theorem ArithOp.ofJson?_symbol (op : ArithOp) : ofJson? (.string op.symbol) = some op := by
  cases op <;> rfl

theorem NumFn.ofJson?_toJson (fn : NumFn) : ofJson? fn.toJson = some fn := by
  cases fn <;> rfl

theorem SortOrder.ofJson?_toJson (o : SortOrder) : ofJson? o.toJson = some o := by
  cases o <;> rfl

/-! ## Records of parts

`write` and `part` write and read the parts; a record is read back if `part`
reads back the parts that it has. -/

section Records

variable {ε : Type} {write : ε → Json} {part : Json → Option ε}

/-- A condition comes back if its target does. -/
theorem Condition.ofFields?_fields {targetName : String} {c : Condition ε}
    {field : String → Option Json} (hmod : field "mod" = some c.compare.toJson)
    (htarget : field targetName = some (write c.target))
    (h : part (write c.target) = some c.target) :
    ofFields? part targetName field = some c := by
  simp [ofFields?, hmod, htarget, Comparison.ofJson?_toJson, h]

/-! Each kind of modifier is read by the names of its own fields. -/

/-- A selection is read from its two fields. -/
theorem Modifier.ofTag?_selection (action : Selection) (content : Json) :
    ofTag? part action.name content = (do
      let field ← content.fields? ["highlow", "expr"]
      return .select action (← Json.optional? Extreme.ofJson? (field "highlow"))
        (← part (← field "expr"))) := by
  cases action <;> rfl

theorem Modifier.ofTag?_test (meaning : Test) (content : Json) :
    ofTag? part meaning.name content = (do
      let field ← content.fields? ["mod", "expr"]
      return .test meaning (← Condition.ofFields? part "expr" field)) := by
  cases meaning <;> rfl

theorem Modifier.ofTag?_mechanic (mechanic : Mechanic) (content : Json) :
    ofTag? part mechanic.name content = (do
      let field ← content.fields? ["target"]
      let trigger ← Json.optional?
        (fun j => do Condition.ofFields? part "value" (← j.fields? ["mod", "value"]))
        (field "target")
      return .again mechanic trigger) := by
  cases mechanic <;> rfl

/-- A modifier comes back if its operands do. -/
theorem Modifier.ofJson?_toJson {m : Modifier ε}
    (h : ∀ x ∈ m.operands, part (write x) = some x) :
    ofJson? part (m.map write).toJson = some m := by
  match m with
  | .select action extreme count =>
    have hcount : part (write count) = some count := h count (by simp [operands])
    have hextreme : Json.optional? Extreme.ofJson?
        (some ((extreme.map Extreme.toJson).getD .null)) = some extreme := by
      cases extreme with
      | none => rfl
      | some e => cases e <;> rfl
    simp [ofJson?, toJson, Modifier.map, Json.typed?_record, name, ofTag?_selection,
      Json.fields?_record, List.lookup_cons, hextreme, hcount]
  | .test meaning condition =>
    have htarget := h condition.target (by simp [operands])
    have hcondition : Condition.ofFields? part "expr" (fun key =>
        (("type", Json.string meaning.name) :: (condition.map write).fields "expr").lookup key) =
          some condition :=
      Condition.ofFields?_fields rfl rfl htarget
    simp [ofJson?, toJson, Modifier.map, Json.typed?_record, name, ofTag?_test,
      Json.fields?_record, hcondition]
  | .again mechanic none =>
    simp [ofJson?, toJson, Modifier.map, Json.typed?_record, name, ofTag?_mechanic,
      Json.fields?_record, List.lookup_cons, Json.present, Json.optional?]
  | .again mechanic (some trigger) =>
    have htarget := h trigger.target (by simp [operands])
    have htrigger : Condition.ofFields? part "value" (fun key =>
        ((trigger.map write).fields "value").lookup key) = some trigger :=
      Condition.ofFields?_fields rfl rfl htarget
    simp [ofJson?, toJson, Modifier.map, Json.typed?_record, name, ofTag?_mechanic,
      Json.fields?_record, List.lookup_cons, Json.present, Json.optional?,
      Json.fields?_object, htrigger]
  | .unsupported => rfl

/-- A match comes back if its operands do, none of which is written as null. -/
theorem Matching.ofJson?_toJson {m : Matching ε} (hnull : ∀ x, write x ≠ .null)
    (h : ∀ x ∈ m.operands, part (write x) = some x) :
    ofJson? part (m.map write).toJson = some m := by
  obtain ⟨least, counts, compare, target⟩ := m
  have hleast : part (write least) = some least := h least (by simp [operands])
  have hcompare : Json.optional? Comparison.ofJson? (compare.map Comparison.toJson) =
      some compare :=
    Json.optional?_present fun c _ => ⟨by simp [Comparison.toJson], Comparison.ofJson?_toJson c⟩
  have htarget : Json.optional? part (target.map write) = some target :=
    Json.optional?_present fun x hx => ⟨hnull x, h x (by simp_all [operands])⟩
  simp [ofJson?, toJson, Matching.map, Json.fields?_object, List.lookup_cons, List.lookup_append,
    Json.lookup_present, Json.bool?, hleast, hcompare, htarget]

/-- A link comes back if its term does. -/
theorem Link.ofJson?_toJson {ω : Type} {symbol : ω → String} {op? : Json → Option ω}
    (hop : ∀ op, op? (.string (symbol op)) = some op) {l : Link ω ε}
    (h : part (write l.term) = some l.term) :
    ofJson? part op? ((l.map write).toJson symbol) = some l := by
  simp [ofJson?, toJson, Link.map, Json.fields?_object, List.lookup_cons, hop, h]

/-- The marker of fate dice is no form of a part, so neither is taken for the other. -/
theorem Sides.ofJson?_toJson {sides : Sides ε}
    (hfate : ∀ x content, (write x).typed? types ≠ some ("fate", content))
    (h : ∀ x ∈ sides.parts, part (write x) = some x) :
    ofJson? part (sides.map write).toJson = some sides := by
  cases sides with
  | fate => rfl
  | numeric faces =>
    have hfaces : part (write faces) = some faces := h faces (by simp [parts])
    simp only [Sides.map, toJson, ofJson?]
    split
    next content heq => exact absurd heq (hfate faces content)
    next => simp [hfaces]

/-! ## Forms -/

/-- Modifiers come back in their order. -/
theorem Modifier.list?_toJson {mods : List (Modifier ε)}
    (h : ∀ m ∈ mods, ∀ x ∈ m.operands, part (write x) = some x) :
    Json.list? (ofJson? part) (.array ((mods.map (map write)).map toJson)) = some mods := by
  rw [List.map_map]
  exact Json.list?_map fun m hm => ofJson?_toJson (h m hm)

/-- Links come back in their order. -/
theorem Link.list?_toJson {ω : Type} {symbol : ω → String} {op? : Json → Option ω}
    (hop : ∀ op, op? (.string (symbol op)) = some op) {tail : List (Link ω ε)}
    (h : ∀ x ∈ tail.map term, part (write x) = some x) :
    Json.list? (ofJson? part op?) (.array ((tail.map (map write)).map (toJson symbol))) =
      some tail := by
  rw [List.map_map]
  exact Json.list?_map fun l hl => ofJson?_toJson hop (h l.term (List.mem_map_of_mem hl))

/-- **Every form is read back** from the fields of its record, if its parts are. -/
theorem Form.ofFields?_toRecord {form : Form ε} (label : Option String)
    (hnumber : ∀ v, form = .number v → v.isFinite) (hnull : ∀ x, write x ≠ .null)
    (hfate : ∀ x content, (write x).typed? Sides.types ≠ some ("fate", content))
    (h : ∀ x ∈ form.parts, part (write x) = some x) :
    ofFields? part (form.map write).toRecord.1 (fun key =>
      (("type", Json.string (form.map write).toRecord.1) ::
        ((form.map write).toRecord.2 ++ Json.present "label" Json.string label)).lookup key) =
      some form := by
  have hmods (m : Modifier ε) (hm : m ∈ form.modifiers) :
      ∀ x ∈ m.operands, part (write x) = some x := fun x hx =>
    h x (mem_parts_of_mem_operands (mem_operands_of_mem_modifiers hm hx))
  cases form with
  | number v =>
    simp [Form.map, toRecord, ofFields?, List.lookup_cons, Number.ofJson?_toJson (hnumber v rfl)]
  | inline expr =>
    have hexpr := h expr (by simp)
    simp [Form.map, toRecord, ofFields?, List.lookup_cons, hexpr]
  | function fn arg =>
    have harg := h arg (by simp)
    simp [Form.map, toRecord, ofFields?, List.lookup_cons, NumFn.ofJson?_toJson, harg]
  | sum head tail =>
    have hhead := h head (by simp)
    have htail : Json.list? (Link.ofJson? part SumOp.ofJson?)
        (.array ((tail.map (Link.map write)).map (Link.toJson SumOp.symbol))) = some tail :=
      Link.list?_toJson SumOp.ofJson?_symbol fun x hx =>
        h x (mem_parts_of_mem_terms (List.mem_cons_of_mem _ hx))
    simp [Form.map, toRecord, ofFields?, List.lookup_cons, hhead, htail, -List.map_map]
  | chain head tail =>
    have hhead := h head (by simp)
    have htail : Json.list? (Link.ofJson? part ArithOp.ofJson?)
        (.array ((tail.map (Link.map write)).map (Link.toJson ArithOp.symbol))) = some tail :=
      Link.list?_toJson ArithOp.ofJson?_symbol fun x hx =>
        h x (mem_parts_of_mem_terms (List.mem_cons_of_mem _ hx))
    simp [Form.map, toRecord, ofFields?, List.lookup_cons, hhead, htail, -List.map_map]
  | group first rest mods =>
    have hrolls : Json.list? part (.array ((first :: rest).map write)) = some (first :: rest) :=
      Json.list?_map fun x hx => h x (mem_parts_of_mem_terms hx)
    have hread : Json.orElse? [] (Json.list? (Modifier.ofJson? part)) ((Json.nonempty "mods"
        ((mods.map (Modifier.map write)).map Modifier.toJson)).lookup "mods") = some mods :=
      Json.orElse?_lookup_nonempty "mods" (Modifier.list?_toJson hmods)
    simp [Form.map, toRecord, ofFields?, List.lookup_cons, List.lookup_append,
      Json.lookup_present, ← List.map_cons, hrolls, hread, -List.map_map]
  | die spec =>
    obtain ⟨sides, count, mods, targets, matching, sort⟩ := spec
    have hcount : part (write count) = some count := h count (by simp [parts, terms])
    have hsides : Sides.ofJson? part (sides.map write).toJson = some sides :=
      Sides.ofJson?_toJson hfate fun x hx =>
        h x (mem_parts_of_mem_terms (List.mem_cons_of_mem _ hx))
    -- the fields that may be left out
    have hmods' := Json.orElse?_lookup_nonempty "mods"
      (Modifier.list?_toJson fun m hm => hmods m (List.mem_append_left _ hm))
    have htargets := Json.orElse?_lookup_nonempty "targets"
      (Modifier.list?_toJson fun m hm => hmods m (List.mem_append_right _ hm))
    have hmatching : Json.optional? (Matching.ofJson? part)
        (matching.map fun m => (m.map write).toJson) = some matching :=
      Json.optional?_present fun m hm => ⟨by simp [Matching.toJson],
        Matching.ofJson?_toJson hnull fun x hx =>
          h x (mem_parts_of_mem_operands (mem_operands_of_mem_matching? hm hx))⟩
    have hsort : Json.optional? SortOrder.ofJson? (sort.map SortOrder.toJson) = some sort :=
      Json.optional?_present fun o _ => ⟨by simp [SortOrder.toJson], SortOrder.ofJson?_toJson o⟩
    simp [Form.map, DieSpec.map, toRecord, ofFields?, List.lookup_cons, List.lookup_append,
      Json.lookup_present, Json.lookup_nonempty_of_ne, Function.comp_def, hcount, hsides, hmods',
      htargets, hmatching, hsort, -List.map_map]

end Records

/-! ## Depth -/

namespace Json

/-- Items are less deep than their array. -/
theorem depth_lt_array {item : Json} {items : List Json} (h : item ∈ items) :
    item.depth < (array items).depth := by
  rw [depth, Nat.lt_succ_iff]
  induction items with
  | nil => cases h
  | cons first rest ih =>
    rw [itemsDepth]
    rcases List.mem_cons.1 h with rfl | h
    · exact Nat.le_max_left ..
    · exact Nat.le_trans (ih h) (Nat.le_max_right ..)

/-- Fields are less deep than their object. -/
theorem depth_lt_object (name : String) {value : Json} {fields : List (String × Json)}
    (h : (name, value) ∈ fields) : value.depth < (object fields).depth := by
  rw [depth, Nat.lt_succ_iff]
  induction fields with
  | nil => cases h
  | cons first rest ih =>
    rw [fieldsDepth]
    rcases List.mem_cons.1 h with rfl | h
    · exact Nat.le_max_left ..
    · exact Nat.le_trans (ih h) (Nat.le_max_right ..)

theorem mem_nonempty (name : String) {item : Json} {items : List Json} (h : item ∈ items) :
    (name, array items) ∈ nonempty name items := by
  cases items with
  | nil => cases h
  | cons first rest => exact List.mem_cons_self

end Json

/-- Operands are less deep than the record of their modifier. -/
theorem Modifier.depth_lt_of_mem_operands {m : Modifier Json} {x : Json} (h : x ∈ m.operands) :
    x.depth < m.toJson.depth := by
  match m with
  | .select _ extreme count =>
    obtain rfl : x = count := List.mem_singleton.1 h
    exact Json.depth_lt_object "expr" (by simp)
  | .test _ ⟨compare, target⟩ =>
    obtain rfl : x = target := List.mem_singleton.1 h
    exact Json.depth_lt_object "expr" (by simp [Condition.fields])
  | .again _ (some ⟨compare, target⟩) =>
    obtain rfl : x = target := List.mem_singleton.1 h
    have htarget : x.depth < (Json.object (Condition.fields "value" ⟨compare, x⟩)).depth :=
      Json.depth_lt_object "value" (by simp [Condition.fields])
    exact Nat.lt_trans htarget (Json.depth_lt_object "target" (by simp [Json.present]))
  | .again _ none | .unsupported => cases h

theorem Matching.depth_lt_of_mem_operands {m : Matching Json} {x : Json} (h : x ∈ m.operands) :
    x.depth < m.toJson.depth := by
  obtain ⟨least, counts, compare, target⟩ := m
  rcases List.mem_cons.1 h with rfl | h
  · exact Json.depth_lt_object "min" (by simp)
  · obtain rfl : target = some x := by simpa using h
    exact Json.depth_lt_object "expr" (by simp [Json.present])

theorem Modifier.depth_lt_array {mods : List (Modifier Json)} {m : Modifier Json} {x : Json}
    (hm : m ∈ mods) (hx : x ∈ m.operands) : x.depth < (Json.array (mods.map toJson)).depth :=
  Nat.lt_trans (depth_lt_of_mem_operands hx) (Json.depth_lt_array (List.mem_map_of_mem hm))

theorem Link.depth_lt_array {ω : Type} (symbol : ω → String) {tail : List (Link ω Json)} {x : Json}
    (h : x ∈ tail.map term) : x.depth < (Json.array (tail.map (toJson symbol))).depth := by
  obtain ⟨l, hl, rfl⟩ := List.mem_map.1 h
  exact Nat.lt_trans (Json.depth_lt_object "tail" (by simp))
    (Json.depth_lt_array (List.mem_map_of_mem hl))

/-- **What is written for a part** is nested less deeply than the record it is in. -/
theorem Form.depth_lt_of_mem_parts {form : Form Json} {x : Json} (h : x ∈ form.parts)
    (extra : List (String × Json)) :
    x.depth < (Json.record form.toRecord.1 (form.toRecord.2 ++ extra)).depth := by
  -- a field of the form is one of the record
  have hfield (name : String) {value : Json} (hvalue : (name, value) ∈ form.toRecord.2) :
      value.depth < (Json.record form.toRecord.1 (form.toRecord.2 ++ extra)).depth :=
    Json.depth_lt_object name (List.mem_cons_of_mem _ (List.mem_append_left _ hvalue))
  cases form with
  | number v => cases h
  | inline expr | function fn arg =>
    obtain rfl := List.mem_singleton.1 h
    exact hfield "expr" (by simp [toRecord])
  | sum head tail | chain head tail =>
    rcases List.mem_cons.1 (by simpa only [parts_sum, parts_chain] using h) with rfl | h
    · exact hfield "head" (.head _)
    · exact Nat.lt_trans (Link.depth_lt_array _ h) (hfield "ops" (.tail _ (.head _)))
  | group first rest mods =>
    rcases List.mem_append.1 h with h | h
    · exact Nat.lt_trans (Json.depth_lt_array h) (hfield "rolls" (.head _))
    · obtain ⟨m, hm, hx⟩ := mem_operands_group.1 h
      exact Nat.lt_trans (Modifier.depth_lt_array hm hx)
        (hfield "mods" (.tail _ (Json.mem_nonempty _ (List.mem_map_of_mem hm))))
  | die spec =>
    obtain ⟨sides, count, mods, targets, matching, sort⟩ := spec
    rcases List.mem_append.1 h with h | h
    · rcases List.mem_cons.1 h with rfl | h
      · exact hfield "count" (by simp [toRecord])
      · cases sides with
        | fate => cases h
        | numeric faces =>
          obtain rfl := List.mem_singleton.1 h
          exact hfield "die" (by simp [toRecord, Sides.toJson])
    · rcases mem_operands_die.1 h with ⟨m, hm, hx⟩ | ⟨m, hm, hx⟩ | ⟨m, rfl, hx⟩
      · have hmods := Json.mem_nonempty "mods" (List.mem_map_of_mem (f := Modifier.toJson) hm)
        exact Nat.lt_trans (Modifier.depth_lt_array hm hx) (hfield "mods" (by simp_all [toRecord]))
      · have htargets := Json.mem_nonempty "targets" (List.mem_map_of_mem (f := Modifier.toJson) hm)
        exact Nat.lt_trans (Modifier.depth_lt_array hm hx)
          (hfield "targets" (by simp_all [toRecord]))
      · exact Nat.lt_trans (Matching.depth_lt_of_mem_operands hx)
          (hfield "match" (by simp [toRecord, Json.present]))

/-! ## Trees -/

/-- Every double in the expression is finite, in every layer. -/
inductive Node.Finite : Node → Prop
  | term {form : Form Node} {label : Option String} :
    (∀ v, form = .number v → v.isFinite) → (∀ n ∈ form.parts, n.Finite) →
      Finite (.term form label)
  | unsupported : Finite .unsupported

/-- A term is a record of its form, with a label if it has one. -/
theorem Node.toJson_term (form : Form Node) (label : Option String) :
    (term form label).toJson =
      .record (form.map toJson).toRecord.1
        ((form.map toJson).toRecord.2 ++ Json.present "label" Json.string label) :=
  fold_term ..

theorem Node.toJson_unsupported : unsupported.toJson = .record "unsupported" [] :=
  fold_unsupported ..

/-- An expression is written as a record, of a type that is not the marker of
fate dice. -/
theorem Node.toJson_eq_record (n : Node) :
    ∃ tag fields, n.toJson = .record tag fields ∧ tag ≠ "fate" := by
  cases n with
  | term form label =>
    refine ⟨_, _, toJson_term form label, ?_⟩
    cases form <;> simp [Form.map, Form.toRecord]
  | unsupported => exact ⟨_, _, toJson_unsupported, by simp⟩

/-- No expression is written as null, so a missing part is not one that is there. -/
theorem Node.toJson_ne_null (n : Node) : n.toJson ≠ .null := by
  obtain ⟨tag, fields, hn, -⟩ := toJson_eq_record n
  simp [hn, Json.record]

/-- No expression is read as Fate sides. -/
theorem Node.typed?_toJson_ne_fate (n : Node) (content : Json) :
    n.toJson.typed? Sides.types ≠ some ("fate", content) := by
  obtain ⟨tag, fields, hn, hfate⟩ := toJson_eq_record n
  simp [hn, Json.typed?_record, hfate]

/-- The type of a form has a name that is known. -/
theorem Form.exists_lookup_types (form : Form Json) :
    ∃ names, types.lookup form.toRecord.1 = some names := by
  cases form <;> exact ⟨_, rfl⟩

/-- No form has a field that could be taken for the label. -/
theorem Form.lookup_label (form : Form Json) (label : Option String) :
    (("type", Json.string form.toRecord.1) ::
      (form.toRecord.2 ++ Json.present "label" Json.string label)).lookup "label" =
        label.map Json.string := by
  cases form <;>
    simp [toRecord, List.lookup_cons, List.lookup_append, Json.lookup_present,
      Json.lookup_nonempty_of_ne]

/-- **A written expression is read back** by a reader that goes deep enough. -/
theorem Node.readJson_toJson {n : Node} (h : n.Finite) {depth : Nat}
    (hdepth : n.toJson.depth ≤ depth) : readJson depth n.toJson = some n := by
  induction h generalizing depth with
  | @term form label hnumber _ ih =>
    rw [toJson_term] at hdepth ⊢
    cases depth with
    | zero => exact absurd hdepth (by simp [Json.record, Json.depth])
    | succ depth =>
      have hparts : ∀ x ∈ form.parts, readJson depth x.toJson = some x := by
        intro x hx
        have hx' : x.toJson ∈ (form.map toJson).parts := by simpa using List.mem_map_of_mem hx
        have hlt := Form.depth_lt_of_mem_parts hx' (Json.present "label" Json.string label)
        exact ih x hx (by omega)
      have hlabel : Json.optional? Json.string? (label.map Json.string) = some label :=
        Json.optional?_present fun s _ => ⟨by simp, rfl⟩
      obtain ⟨names, hnames⟩ := Form.exists_lookup_types (form.map toJson)
      have hform :=
        Form.ofFields?_toRecord label hnumber toJson_ne_null typed?_toJson_ne_fate hparts
      simp only [readJson, Json.typed?_record, Option.bind_eq_bind, Option.bind_some, hnames,
        Json.fields?_record, hform, Form.lookup_label, hlabel]
      rfl
  | unsupported =>
    rw [toJson_unsupported] at hdepth ⊢
    cases depth with
    | zero => exact absurd hdepth (by simp [Json.record, Json.depth])
    | succ depth => rfl

/-- **Reading undoes writing.** Every expression whose doubles are finite is read
back from its serialized form, with every number of the kind it was, and
everything that was absent absent again. -/
theorem Node.ofJson?_toJson_eq_some {n : Node} (h : n.Finite) :
    ofJson? n.toJson = some n := by
  obtain ⟨tag, fields, hn, -⟩ := toJson_eq_record n
  have hread := readJson_toJson h (Nat.le_refl _)
  rw [hn] at hread ⊢
  exact hread

/-- Fate dice that are rolled again, tested against a fraction, matched, sorted
and labelled, beside an unknown expression in a group, less an embedded roll. -/
theorem Node.ofJson?_toJson_eq_some_layers :
    let dice : Node := .term (.die {
      sides := .fate
      count := .int 2
      mods := [.again .reroll (some ⟨.atMost, .int (-1)⟩), .again .explode none, .unsupported]
      targets := [.test .crit ⟨.equal, .number (.float ⟨0x3fe0000000000000⟩)⟩]
      matching := some ⟨.int 3, true, some .atLeast, some (.int 0)⟩
      sort := some .descending }) (some "fate")
    let n : Node := .term (.sum
      (.term (.group dice [.unsupported] [.select .keep none (.int 1)]) none)
      [⟨.sub, .inline (.function .floor (.term (.chain (.int 5) [⟨.div, .int 2⟩]) none))⟩]) none
    n.Finite ∧ ofJson? n.toJson = some n := by
  intro dice n
  have hnumber {v : Number} (h : v.isFinite) : (number v).Finite :=
    .term (by simpa using h) (by simp)
  have hint (x : Int64) : (int x).Finite := hnumber rfl
  have hhalf : (number (.float ⟨0x3fe0000000000000⟩)).Finite := hnumber (by decide)
  have hdice : dice.Finite := by
    refine .term (by simp) ?_
    simp [Form.parts, Form.terms, Form.operands, Form.modifiers, Form.matching?, Sides.parts,
      Modifier.operands, Matching.operands, hint, hhalf]
  have hn : n.Finite := by
    refine .term (by simp) ?_
    simp only [Form.parts_sum, List.map_cons, List.map_nil, List.forall_mem_cons]
    refine ⟨.term (by simp) ?_, .term (by simp) ?_, by simp⟩
    · simp [Form.parts, Form.terms, Form.operands, Form.modifiers, Form.matching?,
        Modifier.operands, hdice, hint, Finite.unsupported]
    · simp only [Form.parts_inline, List.mem_singleton, forall_eq]
      refine .term (by simp) ?_
      simp only [Form.parts_function, List.mem_singleton, forall_eq]
      exact .term (by simp) (by simp [hint])
  exact ⟨hn, ofJson?_toJson_eq_some hn⟩

end DiceNotation
