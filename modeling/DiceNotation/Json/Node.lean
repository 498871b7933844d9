import DiceNotation.Json
import DiceNotation.Notation.Node

/-!
# The serialized form of expressions

Every node and every modifier is a record tagged with its type. Fields that
hold nothing are left out, but for the end of a selection, which is written
even if it is null. Reading ignores fields that it does not know, and takes an
unknown type for an unsupported node or modifier. It also takes records given as
lists, types given by number (`Form.types`, `Modifier.types`) and symbols given
as objects; only the type of a whole tree has to be named.

Writing is a fold over the tree. Reading takes the reader of the parts as an
argument, so each record has one function that says what it consists of, and
`Node.readJson` ties the knot: the depth of the data bounds that of the tree.
-/

namespace DiceNotation

/-! ## Symbols -/

/-- The value whose text a symbol has. -/
def Json.symbol? {α : Type} (all : List α) (text : α → String) (j : Json) : Option α := do
  let s ← j.symbolText?
  all.find? fun a => text a == s

def Comparison.ofJson? : Json → Option Comparison :=
  Json.symbol? [.atLeast, .atMost, .equal] Comparison.symbol

def Extreme.ofJson? : Json → Option Extreme := Json.symbol? [.high, .low] Extreme.symbol

def SumOp.ofJson? : Json → Option SumOp := Json.symbol? [.add, .sub] SumOp.symbol

def ArithOp.ofJson? : Json → Option ArithOp :=
  Json.symbol? [.add, .sub, .mul, .div, .rem, .pow] ArithOp.symbol

def NumFn.ofJson? : Json → Option NumFn :=
  Json.symbol? [.floor, .ceil, .round, .abs] NumFn.symbol

def Comparison.toJson (c : Comparison) : Json := .string c.symbol

def Extreme.toJson (e : Extreme) : Json := .string e.symbol

def NumFn.toJson (fn : NumFn) : Json := .string fn.symbol

/-! ## Writing -/

/-- The fields of a condition; the target goes under the given name. -/
def Condition.fields (targetName : String) (c : Condition Json) : List (String × Json) :=
  [("mod", c.compare.toJson), (targetName, c.target)]

/-- A modifier. Conditions stand in the record of a test itself, and in one of
their own in the record of a re-roll. -/
def Modifier.toJson (m : Modifier Json) : Json :=
  .record m.name <|
    match m with
    | .select _ extreme count =>
      [("highlow", (extreme.map Extreme.toJson).getD .null), ("expr", count)]
    | .test _ condition => condition.fields "expr"
    | .again _ trigger => Json.present "target" (fun c => .object (c.fields "value")) trigger
    | .unsupported => []

def Matching.toJson (m : Matching Json) : Json :=
  .object <|
    [("min", m.least), ("count", .bool m.counts)] ++
      Json.present "mod" Comparison.toJson m.compare ++ Json.present "expr" id m.target

def SortOrder.toJson (o : SortOrder) : Json := .object [("asc", .bool (o = .ascending))]

/-- The marker of fate dice, or the record of what gives the number of faces. -/
def Sides.toJson : Sides Json → Json
  | .fate => .record "fate" []
  | .numeric faces => faces

def Link.toJson {ω : Type} (symbol : ω → String) (l : Link ω Json) : Json :=
  .object [("op", .string (symbol l.op)), ("tail", l.term)]

/-- The type and the fields of a form. -/
def Form.toRecord : Form Json → String × List (String × Json)
  | .number value => ("number", [("value", value.toJson)])
  | .inline expr => ("inline", [("expr", expr)])
  | .die spec =>
    ("die",
      [("die", spec.sides.toJson), ("count", spec.count)] ++
        Json.nonempty "mods" (spec.mods.map Modifier.toJson) ++
        Json.nonempty "targets" (spec.targets.map Modifier.toJson) ++
        Json.present "match" Matching.toJson spec.matching ++
        Json.present "sort" SortOrder.toJson spec.sort)
  | .group first rest mods =>
    ("group", ("rolls", .array (first :: rest)) ::
      Json.nonempty "mods" (mods.map Modifier.toJson))
  | .sum head tail =>
    ("diceExpression",
      [("head", head), ("ops", .array (tail.map (Link.toJson SumOp.symbol)))])
  | .chain head tail =>
    ("expression",
      [("head", head), ("ops", .array (tail.map (Link.toJson ArithOp.symbol)))])
  | .function fn arg => ("mathfunction", [("op", fn.toJson), ("expr", arg)])

/-- The serialized form of a tree. -/
def Node.toJson : Node → Json :=
  Node.fold
    (fun form label =>
      let (tag, fields) := form.toRecord
      .record tag (fields ++ Json.present "label" Json.string label))
    (.record "unsupported" [])

/-! ## Types -/

def Selection.all : List Selection := [.keep, .drop]

def Test.all : List Test := [.success, .failure, .crit, .critfail]

def Mechanic.all : List Mechanic := [.explode, .compound, .penetrate, .reroll, .rerollOnce]

/-- The types of modifiers, in the order of their numbers. -/
def Modifier.types : List String :=
  Selection.all.map Selection.name ++ Test.all.map Test.name ++ Mechanic.all.map Mechanic.name

/-- The types of forms, in the order of their numbers, and the fields of each in
the order of a list. -/
def Form.types : List (String × List String) := [
  ("number", ["value", "label"]),
  ("inline", ["expr", "label"]),
  ("die", ["die", "count", "mods", "targets", "match", "sort", "label"]),
  ("group", ["rolls", "mods", "label"]),
  ("diceExpression", ["head", "ops", "label"]),
  ("expression", ["head", "ops", "label"]),
  ("mathfunction", ["op", "expr", "label"])]

/-- The only type of a marker in place of a number of faces. -/
def Sides.types : List String := ["fate"]

/-! ## Reading -/

section Read

variable {ε : Type} (part : Json → Option ε)

/-- A condition from the fields of a record. -/
def Condition.ofFields? (targetName : String) (field : String → Option Json) :
    Option (Condition ε) := do
  return ⟨← Comparison.ofJson? (← field "mod"), ← part (← field targetName)⟩

/-- The selection, the test or the mechanic that a type names. -/
def Modifier.ofTag? (tag : String) (content : Json) : Option (Modifier ε) :=
  if let some action := Selection.all.find? (·.name == tag) then do
    let field ← content.fields? ["highlow", "expr"]
    return .select action (← Json.optional? Extreme.ofJson? (field "highlow"))
      (← part (← field "expr"))
  else if let some meaning := Test.all.find? (·.name == tag) then do
    let field ← content.fields? ["mod", "expr"]
    return .test meaning (← Condition.ofFields? part "expr" field)
  else if let some mechanic := Mechanic.all.find? (·.name == tag) then do
    let field ← content.fields? ["target"]
    let trigger ← Json.optional?
      (fun j => do Condition.ofFields? part "value" (← j.fields? ["mod", "value"]))
      (field "target")
    return .again mechanic trigger
  else if content.isBare then some .unsupported
  else none

def Modifier.ofJson? (j : Json) : Option (Modifier ε) := do
  let (tag, content) ← j.typed? Modifier.types
  Modifier.ofTag? part tag content

def Matching.ofJson? (j : Json) : Option (Matching ε) := do
  let field ← j.fields? ["min", "count", "mod", "expr"]
  return {
    least := ← part (← field "min")
    counts := ← (← field "count").bool?
    compare := ← Json.optional? Comparison.ofJson? (field "mod")
    target := ← Json.optional? part (field "expr") }

def SortOrder.ofJson? (j : Json) : Option SortOrder := do
  let field ← j.fields? ["asc"]
  return if ← (← field "asc").bool? then .ascending else .descending

/-- The marker of fate dice comes before any node of the same type. -/
def Sides.ofJson? (j : Json) : Option (Sides ε) :=
  match j.typed? Sides.types with
  | some ("fate", content) => if content.isBare then some .fate else .numeric <$> part j
  | _ => .numeric <$> part j

def Link.ofJson? {ω : Type} (op? : Json → Option ω) (j : Json) : Option (Link ω ε) := do
  let field ← j.fields? ["op", "tail"]
  return ⟨← op? (← field "op"), ← part (← field "tail")⟩

/-- The form that a type names, from its fields. -/
def Form.ofFields? (tag : String) (field : String → Option Json) : Option (Form ε) :=
  match tag with
  | "number" => do return .number (← Number.ofJson? (← field "value"))
  | "inline" => do return .inline (← part (← field "expr"))
  | "die" => do
    return .die {
      sides := ← Sides.ofJson? part (← field "die")
      count := ← part (← field "count")
      mods := ← Json.orElse? [] (Json.list? (Modifier.ofJson? part)) (field "mods")
      targets := ← Json.orElse? [] (Json.list? (Modifier.ofJson? part)) (field "targets")
      matching := ← Json.optional? (Matching.ofJson? part) (field "match")
      sort := ← Json.optional? SortOrder.ofJson? (field "sort") }
  | "group" => do
    match ← Json.list? part (← field "rolls") with
    | [] => none
    | first :: rest =>
      return .group first rest
        (← Json.orElse? [] (Json.list? (Modifier.ofJson? part)) (field "mods"))
  | "diceExpression" => do
    return .sum (← part (← field "head"))
      (← Json.list? (Link.ofJson? part SumOp.ofJson?) (← field "ops"))
  | "expression" => do
    return .chain (← part (← field "head"))
      (← Json.list? (Link.ofJson? part ArithOp.ofJson?) (← field "ops"))
  | "mathfunction" => do
    return .function (← NumFn.ofJson? (← field "op")) (← part (← field "expr"))
  | _ => none

end Read

/-- Reads a tree that is at most `depth` deep. -/
def Node.readJson : (depth : Nat) → Json → Option Node
  | 0, _ => none
  | depth + 1, j => do
    let (tag, content) ← j.typed? (Form.types.map Prod.fst)
    match Form.types.lookup tag with
    | some names =>
      let field ← content.fields? names
      let form ← Form.ofFields? (Node.readJson depth) tag field
      return .term form (← Json.optional? Json.string? (field "label"))
    | none => if content.isBare then some .unsupported else none

/-- The tree that a serialized form stands for. Its own type is named; a number
is taken only for the types of its parts. -/
def Node.ofJson? (j : Json) : Option Node :=
  match j.tagged? with
  | some (.string _, _) => Node.readJson j.depth j
  | _ => none

end DiceNotation
