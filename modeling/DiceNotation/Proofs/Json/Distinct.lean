import Mathlib.Data.List.Forall2
import DiceNotation.Json.Result
import DiceNotation.Proofs.Json.RoundTrip
import DiceNotation.Proofs.Roll.Places

/-!
# Results told apart by their forms

Two results whose serialized forms are the same data are the same result
(`Result.same_toJson_iff`), as long as their numbers are finite. A record mixes the
fields of the outcome with those of the node, and flags and labels are left out
where there is nothing to say, so the argument goes by the names of the fields:
what stands under the names of an outcome fixes the outcome
(`Outcome.same_record`), and what stands under the other names fixes the rest.
-/

namespace DiceNotation

/-! ## Equal data -/

namespace Json

/-- The two values are the same data. Of an object only what stands under which
name counts; an integer is not a double, and a double is its bits. -/
inductive Same : Json → Json → Prop
  | null : Same .null .null
  | bool (b : Bool) : Same (.bool b) (.bool b)
  | int (n : Int) : Same (.int n) (.int n)
  | float (x : Double) : Same (.float x) (.float x)
  | string (s : String) : Same (.string s) (.string s)
  | array {items items' : List Json} :
    List.Forall₂ Same items items' → Same (.array items) (.array items')
  | object {fields fields' : List (String × Json)} :
    (∀ name, Option.Rel Same (fields.lookup name) (fields'.lookup name)) →
      Same (.object fields) (.object fields')

namespace Same

variable {b b' : Bool} {n n' : Int} {x x' : Double} {s s' : String}
  {items items' : List Json} {fields fields' : List (String × Json)}

@[simp] theorem bool_iff : Same (.bool b) (.bool b') ↔ b = b' :=
  ⟨fun h => by cases h; rfl, fun h => h ▸ .bool b⟩

@[simp] theorem int_iff : Same (.int n) (.int n') ↔ n = n' :=
  ⟨fun h => by cases h; rfl, fun h => h ▸ .int n⟩

@[simp] theorem float_iff : Same (.float x) (.float x') ↔ x = x' :=
  ⟨fun h => by cases h; rfl, fun h => h ▸ .float x⟩

@[simp] theorem string_iff : Same (.string s) (.string s') ↔ s = s' :=
  ⟨fun h => by cases h; rfl, fun h => h ▸ .string s⟩

theorem array_iff : Same (.array items) (.array items') ↔ List.Forall₂ Same items items' :=
  ⟨fun h => by cases h with | array h => exact h, .array⟩

/-- Objects are the same if each name leads to the same. -/
theorem object_iff : Same (.object fields) (.object fields') ↔
    ∀ name, Option.Rel Same (fields.lookup name) (fields'.lookup name) :=
  ⟨fun h => by cases h with | object h => exact h, .object⟩

@[simp] theorem not_int_float : ¬ Same (.int n) (.float x) := nofun

@[simp] theorem not_float_int : ¬ Same (.float x) (.int n) := nofun

@[simp] theorem not_null_string : ¬ Same .null (.string s) := nofun

@[simp] theorem not_string_null : ¬ Same (.string s) .null := nofun

/-- Every value is the same data as itself. -/
theorem refl : ∀ j : Json, j.Same j
  | .null => .null
  | .bool b => .bool b
  | .int n => .int n
  | .float x => .float x
  | .string s => .string s
  | .array items => .array (List.forall₂_same.2 fun item _ => refl item)
  | .object fields => .object fun name => by
    cases hvalue : fields.lookup name with
    | none => exact .none
    | some value =>
      have hmem : (name, value) ∈ fields := by
        obtain ⟨before, after, rfl, -⟩ := List.lookup_eq_some_iff.1 hvalue
        simp
      exact .some (refl value)
termination_by j => j.depth
decreasing_by
  · exact depth_lt_array ‹_›
  · exact depth_lt_object name ‹_›

/-- Lists written item by item are equal if their items are told apart. -/
theorem eq_of_map {α : Type} {write : α → Json} {l l' : List α}
    (h : ∀ a ∈ l, ∀ a' ∈ l', Same (write a) (write a') → a = a')
    (hsame : Same (.array (l.map write)) (.array (l'.map write))) : l = l' := by
  have hitems := array_iff.1 hsame
  rw [List.forall₂_map_left_iff, List.forall₂_map_right_iff] at hitems
  clear hsame
  induction hitems with
  | nil => rfl
  | @cons a a' l l' hhead _ ih =>
    rw [List.forall_mem_cons] at h
    obtain rfl := h.1 a' List.mem_cons_self hhead
    rw [ih fun b hb b' hb' => h.2 b hb b' (List.mem_cons_of_mem _ hb')]

end Same

/-- A name that a record does not have leads nowhere. -/
theorem lookup_eq_none {names : List String} {fields : List (String × Json)}
    (hnames : ∀ field ∈ fields, field.1 ∈ names) {name : String} (h : name ∉ names) :
    fields.lookup name = none :=
  List.lookup_eq_none_iff.2 fun field hfield =>
    bne_iff_ne.2 fun heq => h (heq ▸ hnames field hfield)

theorem lookup_flag (name key : String) (set : Bool) :
    (flag name set).lookup key = if key == name && set then some (.bool true) else none := by
  cases set <;> cases hkey : key == name <;> simp [flag, List.lookup_cons, hkey]

/-- A flag is there exactly if it is set. -/
theorem Same.eq_of_flag {set set' : Bool}
    (h : Option.Rel Same (if set then some (.bool true) else none)
      (if set' then some (.bool true) else none)) : set = set' := by
  cases set <;> cases set' <;> simp_all

/-- Records of the same data have the same tag. -/
theorem Same.tag_eq {tag tag' : String} {fields fields' : List (String × Json)}
    (h : Same (record tag fields) (record tag' fields')) : tag = tag' := by
  simpa [List.lookup_cons] using object_iff.1 h "type"

end Json

/-! ## Numbers and symbols -/

/-- Finite numbers with the same data are equal. -/
theorem Number.eq_of_same_toJson {v v' : Number} (h : v.isFinite) (h' : v'.isFinite)
    (hsame : v.toJson.Same v'.toJson) : v = v' := by
  cases v <;> cases v' <;> simp_all [toJson, isFinite, Int64.toInt_inj]

theorem SumOp.eq_of_same_toJson {op op' : SumOp} (h : op.toJson.Same op'.toJson) : op = op' := by
  cases op <;> cases op' <;> simp_all [toJson, symbol]

theorem ArithOp.eq_of_same_toJson {op op' : ArithOp} (h : op.toJson.Same op'.toJson) :
    op = op' := by
  cases op <;> cases op' <;> simp_all [toJson, symbol]

theorem NumFn.eq_of_same_toJson {fn fn' : NumFn} (h : fn.toJson.Same fn'.toJson) : fn = fn' := by
  cases fn <;> cases fn' <;> simp_all [toJson, symbol]

/-! ## Outcomes -/

/-- The names of the type and of the fields of an outcome. -/
def Outcome.names : List String := ["type", "value", "valid", "success", "order", "label"]

/-- What stands under a name of its own is not hidden by the outcome. -/
theorem Outcome.lookup_record (o : Outcome) (tag : String) (own : List (String × Json))
    {name : String} (h : name ∉ names) :
    (("type", Json.string tag) :: (o.fields ++ own)).lookup name = own.lookup name := by
  have hnames : ∀ field ∈ ("type", Json.string tag) :: o.fields, field.1 ∈ names := by
    cases hlabel : o.label <;> simp [fields, Json.present, names, hlabel]
  rw [← List.cons_append, List.lookup_append, Json.lookup_eq_none hnames h, Option.none_or]

/-- **What records have in common.** Records of nodes that are the same data are
of one type and have the same outcome, and besides it the same fields. -/
theorem Outcome.same_record {o o' : Outcome} {tag tag' : String} {own own' : List (String × Json)}
    (hvalue : o.value.isFinite) (hvalue' : o'.value.isFinite)
    (hlabel : own.lookup "label" = none) (hlabel' : own'.lookup "label" = none)
    (h : (Json.record tag (o.fields ++ own)).Same (.record tag' (o'.fields ++ own'))) :
    tag = tag' ∧ o = o' ∧
      ∀ name ∉ names, Option.Rel Json.Same (own.lookup name) (own'.lookup name) := by
  have hfield := Json.Same.object_iff.1 h
  refine ⟨Json.Same.tag_eq h, ?_, fun name hname => ?_⟩
  · obtain ⟨value, valid, success, order, label⟩ := o
    obtain ⟨value', valid', success', order', label'⟩ := o'
    obtain rfl : value = value' := Number.eq_of_same_toJson hvalue hvalue' <| by
      simpa [fields, List.lookup_cons] using hfield "value"
    obtain rfl : valid = valid' := by simpa [fields, List.lookup_cons] using hfield "valid"
    obtain rfl : success = success' := by simpa [fields, List.lookup_cons] using hfield "success"
    obtain rfl : order = order' := Int.ofNat_inj.1 <| by
      simpa [fields, List.lookup_cons] using hfield "order"
    obtain rfl : label = label' := by
      have hname := hfield "label"
      simp only [fields, List.lookup_cons, List.lookup_append, Json.lookup_present, hlabel,
        hlabel'] at hname
      cases label <;> cases label' <;> simp_all
    rfl
  · rw [← lookup_record o tag own hname, ← lookup_record o' tag' own' hname]
    exact hfield name

/-! ## Single dice -/

/-- The names of what only a numeric die has. -/
def Face.names : List String := ["die", "critical"]

/-- A face has no fields but these. -/
theorem Face.lookup_toRecord_eq_none (face : Face) {name : String} (h : name ∉ names) :
    face.toRecord.2.lookup name = none :=
  Json.lookup_eq_none (by cases face <;> simp [toRecord, names]) h

/-- Faces with the same tag and the same fields are equal. -/
theorem Face.eq_of_same {face face' : Face} (htag : face.toRecord.1 = face'.toRecord.1)
    (hfield : ∀ name ∈ names,
      Option.Rel Json.Same (face.toRecord.2.lookup name) (face'.toRecord.2.lookup name)) :
    face = face' := by
  cases face <;> cases face' <;> simp [toRecord] at htag
  case fate.fate => rfl
  case numeric.numeric faces critical faces' critical' =>
    obtain rfl : faces = faces' := Int64.toInt_inj.1 <| by
      simpa [toRecord] using hfield "die" (by simp [names])
    obtain rfl : critical = critical' := by
      have hcritical := hfield "critical" (by simp [names])
      rcases critical with - | ⟨⟨⟩⟩ <;> rcases critical' with - | ⟨⟨⟩⟩ <;>
        simp_all [toRecord, List.lookup_cons, Critical.toJson]
    rfl

namespace RolledDie

/-- What a single die has to tell besides its outcome and its face. -/
def marks (d : RolledDie) : List (String × Json) :=
  [("roll", Json.int d.roll.toInt), ("matched", Json.bool d.matched)] ++
    Json.flag "explode" d.exploded ++ Json.flag "reroll" d.rerolled ++ Json.flag "drop" d.dropped

/-- A die is a record of its face, of its outcome and of the marks that are set. -/
theorem toJson_eq (d : RolledDie) :
    d.toJson = .record d.face.toRecord.1 (d.outcome.fields ++ (d.face.toRecord.2 ++ d.marks)) := by
  simp [toJson, marks]

/-- No mark has a name that a face has for what it tells. -/
theorem lookup_marks_eq_none (d : RolledDie) {name : String} (h : name ∈ Face.names) :
    d.marks.lookup name = none := by
  rcases List.mem_pair.1 h with rfl | rfl <;>
    simp only [marks, List.lookup_append, Json.lookup_flag] <;> rfl

/-- The fields of a die and of its outcome stand in one record under different names. -/
theorem nodup_names (d : RolledDie) :
    (("type", Json.string d.face.toRecord.1) ::
      (d.outcome.fields ++ (d.face.toRecord.2 ++ d.marks))).map Prod.fst |>.Nodup := by
  obtain ⟨⟨value, valid, success, order, label⟩, face, roll, matched, exploded, rerolled,
    dropped⟩ := d
  cases label <;> cases face <;> cases exploded <;> cases rerolled <;> cases dropped <;>
    simp [Outcome.fields, Face.toRecord, marks, Json.present, Json.flag]

/-- **Single dice are told apart**: by their types, by what came up on which die,
and by the marks that they have. -/
theorem eq_of_same_toJson {d d' : RolledDie} (h : d.outcome.value.isFinite)
    (h' : d'.outcome.value.isFinite) (hsame : d.toJson.Same d'.toJson) : d = d' := by
  have hlabel (d : RolledDie) : (d.face.toRecord.2 ++ d.marks).lookup "label" = none := by
    rw [List.lookup_append, d.face.lookup_toRecord_eq_none (by simp [Face.names])]
    simp only [marks, List.lookup_append, Json.lookup_flag]
    rfl
  rw [toJson_eq, toJson_eq] at hsame
  obtain ⟨htag, houtcome, hfield⟩ := Outcome.same_record h h' (hlabel d) (hlabel d') hsame
  have hface : d.face = d'.face := Face.eq_of_same htag fun name hname => by
    have := hfield name (by rcases List.mem_pair.1 hname with rfl | rfl <;> simp [Outcome.names])
    simpa only [List.lookup_append, lookup_marks_eq_none _ hname, Option.or_none] using this
  -- the marks are fields of their own, which neither the face nor the outcome has
  have hmark (name : String) (hname : name ∉ Face.names) (hname' : name ∉ Outcome.names) :
      Option.Rel Json.Same (d.marks.lookup name) (d'.marks.lookup name) := by
    simpa only [List.lookup_append, Face.lookup_toRecord_eq_none _ hname, Option.none_or]
      using hfield name hname'
  have hroll : d.roll.toInt = d'.roll.toInt := by
    simpa [marks] using hmark "roll" (by simp [Face.names]) (by simp [Outcome.names])
  have hmatched : d.matched = d'.matched := by
    simpa [marks, List.lookup_cons] using
      hmark "matched" (by simp [Face.names]) (by simp [Outcome.names])
  have hexploded : d.exploded = d'.exploded := Json.Same.eq_of_flag <| by
    simpa [marks, List.lookup_cons, List.lookup_append, Json.lookup_flag] using
      hmark "explode" (by simp [Face.names]) (by simp [Outcome.names])
  have hrerolled : d.rerolled = d'.rerolled := Json.Same.eq_of_flag <| by
    simpa [marks, List.lookup_cons, List.lookup_append, Json.lookup_flag] using
      hmark "reroll" (by simp [Face.names]) (by simp [Outcome.names])
  have hdropped : d.dropped = d'.dropped := Json.Same.eq_of_flag <| by
    simpa [marks, List.lookup_cons, List.lookup_append, Json.lookup_flag] using
      hmark "drop" (by simp [Face.names]) (by simp [Outcome.names])
  obtain ⟨outcome, face, roll, matched, exploded, rerolled, dropped⟩ := d
  obtain ⟨outcome', face', roll', matched', exploded', rerolled', dropped'⟩ := d'
  simp only [mk.injEq]
  exact ⟨houtcome, hface, Int64.toInt_inj.1 hroll, hmatched, hexploded, hrerolled, hdropped⟩

end RolledDie

/-! ## Results -/

namespace Result

/-- Every number in the result is finite: those of its nodes and of its dice. -/
inductive Finite : Result → Prop
  | mk {outcome : Outcome} {shape : Shape Result} :
    outcome.value.isFinite → (∀ d ∈ shape.rolls, d.outcome.value.isFinite) →
      (∀ t ∈ shape.parts, t.Finite) → Finite (.mk outcome shape)

/-- A result is a record of its shape with its outcome in front. -/
theorem toJson_mk (outcome : Outcome) (shape : Shape Result) :
    (mk outcome shape).toJson =
      .record (shapeRecord shape).1 (outcome.fields ++ (shapeRecord shape).2) := by
  rw [toJson]

theorem listJson_eq_map (terms : List Result) : listJson terms = terms.map toJson := by
  induction terms with
  | nil => rfl
  | cons t terms ih => rw [listJson, ih, List.map_cons]

/-! The record of each shape, whatever dice have for sides. -/

@[simp] theorem shapeRecord_number : shapeRecord .number = ("number", []) := rfl

@[simp] theorem shapeRecord_dice (count : Result) (sides : Sides Result) (rolls : List RolledDie)
    (matched : Bool) :
    shapeRecord (.dice count sides rolls matched) =
      ("die", [("count", count.toJson), ("die", (sides.map toJson).toJson),
        ("rolls", .array (rolls.map RolledDie.toJson)), ("matched", .bool matched)]) := by
  cases sides <;> rfl

@[simp] theorem shapeRecord_sum (terms : List Result) (ops : List SumOp) :
    shapeRecord (.sum terms ops) =
      ("diceexpressionroll",
        [("dice", .array (terms.map toJson)), ("ops", .array (ops.map SumOp.toJson))]) := by
  rw [← listJson_eq_map, shapeRecord]

@[simp] theorem shapeRecord_chain (terms : List Result) (ops : List ArithOp) :
    shapeRecord (.chain terms ops) =
      ("expressionroll",
        [("dice", .array (terms.map toJson)), ("ops", .array (ops.map ArithOp.toJson))]) := by
  rw [← listJson_eq_map, shapeRecord]

@[simp] theorem shapeRecord_group (members : List Result) :
    shapeRecord (.group members) = ("grouproll", [("dice", .array (members.map toJson))]) := by
  rw [← listJson_eq_map, shapeRecord]

@[simp] theorem shapeRecord_function (fn : NumFn) (arg : Result) :
    shapeRecord (.function fn arg) = ("mathfunction", [("op", fn.toJson), ("expr", arg.toJson)]) :=
  rfl

/-- The label of a result is none of its shape's fields. -/
theorem lookup_label_shapeRecord (shape : Shape Result) :
    (shapeRecord shape).2.lookup "label" = none := by
  cases shape <;> simp [List.lookup_cons]

/-- No result is of the type that marks fate dice. -/
theorem tag_ne_fate (shape : Shape Result) : (shapeRecord shape).1 ≠ "fate" := by
  cases shape <;> simp

/-- The fields of a shape and of an outcome stand in one record under different names. -/
theorem nodup_names (outcome : Outcome) (shape : Shape Result) :
    (("type", Json.string (shapeRecord shape).1) ::
      (outcome.fields ++ (shapeRecord shape).2)).map Prod.fst |>.Nodup := by
  obtain ⟨value, valid, success, order, label⟩ := outcome
  cases label <;> cases shape <;> simp [Outcome.fields, Json.present]

/-- **The sides of dice are told apart**: the marker of fate is the form of no result. -/
theorem sides_eq_of_same {sides sides' : Sides Result}
    (hparts : ∀ t ∈ sides.parts, ∀ t' ∈ sides'.parts, t.toJson.Same t'.toJson → t = t')
    (h : (sides.map toJson).toJson.Same (sides'.map toJson).toJson) : sides = sides' := by
  cases sides with
  | fate => cases sides' with
    | fate => rfl
    | numeric faces' =>
      obtain ⟨outcome', shape'⟩ := faces'
      simp only [Sides.map, Sides.toJson, toJson_mk] at h
      exact absurd h.tag_eq.symm (tag_ne_fate shape')
  | numeric faces => cases sides' with
    | fate =>
      obtain ⟨outcome, shape⟩ := faces
      simp only [Sides.map, Sides.toJson, toJson_mk] at h
      exact absurd h.tag_eq (tag_ne_fate shape)
    | numeric faces' =>
      rw [hparts faces (by simp [Sides.parts]) faces' (by simp [Sides.parts]) h]

/-- **Shapes are told apart**, if their parts are. -/
theorem shape_eq_of_same {shape shape' : Shape Result}
    (hrolls : ∀ d ∈ shape.rolls, d.outcome.value.isFinite)
    (hrolls' : ∀ d ∈ shape'.rolls, d.outcome.value.isFinite)
    (hparts : ∀ t ∈ shape.parts, ∀ t' ∈ shape'.parts, t.toJson.Same t'.toJson → t = t')
    (htag : (shapeRecord shape).1 = (shapeRecord shape').1)
    (hfield : ∀ name ∉ Outcome.names, Option.Rel Json.Same
      ((shapeRecord shape).2.lookup name) ((shapeRecord shape').2.lookup name)) :
    shape = shape' := by
  -- only shapes of one kind have the same tag
  cases shape <;> cases shape' <;> simp at htag
  case number.number => rfl
  case dice.dice count sides rolls matched count' sides' rolls' matched' =>
    have hcount : count.toJson.Same count'.toJson := by
      simpa using hfield "count" (by simp [Outcome.names])
    have hsides : (sides.map toJson).toJson.Same (sides'.map toJson).toJson := by
      simpa [List.lookup_cons] using hfield "die" (by simp [Outcome.names])
    have hdice : (Json.array (rolls.map RolledDie.toJson)).Same
        (.array (rolls'.map RolledDie.toJson)) := by
      simpa [List.lookup_cons] using hfield "rolls" (by simp [Outcome.names])
    have hmatched : matched = matched' := by
      simpa [List.lookup_cons] using hfield "matched" (by simp [Outcome.names])
    obtain rfl : count = count' := hparts count (.head _) count' (.head _) hcount
    obtain rfl : sides = sides' := sides_eq_of_same
      (fun t ht t' ht' => hparts t (.tail _ ht) t' (.tail _ ht')) hsides
    obtain rfl : rolls = rolls' := Json.Same.eq_of_map
      (fun d hd d' hd' => RolledDie.eq_of_same_toJson (hrolls d hd) (hrolls' d' hd')) hdice
    rw [hmatched]
  case sum.sum terms ops terms' ops' =>
    have hterms : (Json.array (terms.map toJson)).Same (.array (terms'.map toJson)) := by
      simpa using hfield "dice" (by simp [Outcome.names])
    have hops : (Json.array (ops.map SumOp.toJson)).Same (.array (ops'.map SumOp.toJson)) := by
      simpa [List.lookup_cons] using hfield "ops" (by simp [Outcome.names])
    obtain rfl : terms = terms' := Json.Same.eq_of_map hparts hterms
    rw [Json.Same.eq_of_map (fun _ _ _ _ => SumOp.eq_of_same_toJson) hops]
  case chain.chain terms ops terms' ops' =>
    have hterms : (Json.array (terms.map toJson)).Same (.array (terms'.map toJson)) := by
      simpa using hfield "dice" (by simp [Outcome.names])
    have hops : (Json.array (ops.map ArithOp.toJson)).Same (.array (ops'.map ArithOp.toJson)) := by
      simpa [List.lookup_cons] using hfield "ops" (by simp [Outcome.names])
    obtain rfl : terms = terms' := Json.Same.eq_of_map hparts hterms
    rw [Json.Same.eq_of_map (fun _ _ _ _ => ArithOp.eq_of_same_toJson) hops]
  case group.group members members' =>
    have hmembers : (Json.array (members.map toJson)).Same (.array (members'.map toJson)) := by
      simpa using hfield "dice" (by simp [Outcome.names])
    obtain rfl : members = members' := Json.Same.eq_of_map hparts hmembers
    rfl
  case function.function fn arg fn' arg' =>
    have hfn : fn.toJson.Same fn'.toJson := by
      simpa using hfield "op" (by simp [Outcome.names])
    have harg : arg.toJson.Same arg'.toJson := by
      simpa [List.lookup_cons] using hfield "expr" (by simp [Outcome.names])
    rw [NumFn.eq_of_same_toJson hfn, hparts arg (.head _) arg' (.head _) harg]

/-- Results whose forms are the same data are equal. -/
theorem eq_of_same_toJson {r : Result} : ∀ {r' : Result}, r.Finite → r'.Finite →
    r.toJson.Same r'.toJson → r = r' := by
  induction r using induction with
  | h r ih =>
    rintro r' ⟨hvalue, hrolls, hparts⟩ ⟨hvalue', hrolls', hparts'⟩ hsame
    rw [toJson_mk, toJson_mk] at hsame
    obtain ⟨htag, rfl, hfield⟩ := Outcome.same_record hvalue hvalue' (lookup_label_shapeRecord _)
      (lookup_label_shapeRecord _) hsame
    rw [shape_eq_of_same hrolls hrolls'
      (fun t ht t' ht' => ih t ht (hparts t ht) (hparts' t' ht')) htag hfield]

/-- **The serialized form of a result loses nothing.** Results with finite numbers
have the same form, as data, exactly if they are equal. -/
theorem same_toJson_iff {r r' : Result} (h : r.Finite) (h' : r'.Finite) :
    r.toJson.Same r'.toJson ↔ r = r' :=
  ⟨eq_of_same_toJson h h', fun heq => heq ▸ .refl _⟩

/-- A die that was dropped and one that was rolled again differ in their marks alone. -/
theorem same_toJson_iff_marks :
    let die (rerolled dropped : Bool) : RolledDie :=
      { RolledDie.ofRoll (.numeric 6) 1 0 with rerolled := rerolled, dropped := dropped }
    let roll (rerolled dropped : Bool) : Result :=
      mk { value := .zero } (.dice (number (.int 1)) (.numeric (number (.int 6)))
        [die rerolled dropped] false)
    (roll true false).Finite ∧ (roll false true).Finite ∧
      ¬ (roll true false).toJson.Same (roll false true).toJson := by
  intro die roll
  have hfinite (rerolled dropped : Bool) : (roll rerolled dropped).Finite := by
    have hnumber (n : Int64) : (number (.int n)).Finite :=
      .mk rfl (by simp [Shape.rolls]) (by simp [Shape.parts])
    refine .mk rfl ?_ ?_
    · simp [Shape.rolls, die, RolledDie.ofRoll, Number.isFinite]
    · simp [Shape.parts, Sides.parts, hnumber]
  refine ⟨hfinite true false, hfinite false true, fun hsame => ?_⟩
  have heq := (same_toJson_iff (hfinite true false) (hfinite false true)).1 hsame
  simp [roll, die] at heq

end Result

end DiceNotation
