import DiceNotation.Json.Node
import DiceNotation.Roll.Result

/-!
# The serialized form of results

Every node of a result is a record tagged with its type that begins with the
fields of its outcome. Flags of single dice are left out while they are not
set, but for `matched`.
-/

namespace DiceNotation

/-- The fields that every node of a result has. -/
def Outcome.fields (o : Outcome) : List (String × Json) :=
  [("value", o.value.toJson), ("valid", .bool o.valid), ("success", .bool o.success),
    ("order", .int o.order)] ++ Json.present "label" Json.string o.label

/-- A flag that is left out unless it is set. -/
def Json.flag (name : String) (set : Bool) : List (String × Json) :=
  if set then [(name, .bool true)] else []

def Critical.toJson : Critical → Json
  | .success => .string "success"
  | .failure => .string "failure"

/-- The type of a single die, and what a numeric one has besides. -/
def Face.toRecord : Face → String × List (String × Json)
  | .numeric faces critical =>
    ("roll", [("die", .int faces.toInt), ("critical", (critical.map Critical.toJson).getD .null)])
  | .fate => ("fateroll", [])

def RolledDie.toJson (d : RolledDie) : Json :=
  let (tag, face) := d.face.toRecord
  .record tag <| d.outcome.fields ++ face ++
    [("roll", Json.int d.roll.toInt), ("matched", Json.bool d.matched)] ++
    Json.flag "explode" d.exploded ++ Json.flag "reroll" d.rerolled ++ Json.flag "drop" d.dropped

def SumOp.toJson (op : SumOp) : Json := .string op.symbol

def ArithOp.toJson (op : ArithOp) : Json := .string op.symbol

namespace Result

mutual

/-- The serialized form of a result. -/
def toJson : Result → Json
  | mk outcome shape =>
    let (tag, fields) := shapeRecord shape
    .record tag (outcome.fields ++ fields)

/-- The type and the fields of a shape. -/
def shapeRecord : Shape Result → String × List (String × Json)
  | .number => ("number", [])
  | .dice count .fate rolls matched =>
    ("die", [("count", toJson count), ("die", .record "fate" []),
      ("rolls", .array (rolls.map RolledDie.toJson)), ("matched", .bool matched)])
  | .dice count (.numeric faces) rolls matched =>
    ("die", [("count", toJson count), ("die", toJson faces),
      ("rolls", .array (rolls.map RolledDie.toJson)), ("matched", .bool matched)])
  | .sum terms ops =>
    ("diceexpressionroll",
      [("dice", .array (listJson terms)), ("ops", .array (ops.map SumOp.toJson))])
  | .chain terms ops =>
    ("expressionroll",
      [("dice", .array (listJson terms)), ("ops", .array (ops.map ArithOp.toJson))])
  | .group members => ("grouproll", [("dice", .array (listJson members))])
  | .function fn arg => ("mathfunction", [("op", fn.toJson), ("expr", toJson arg)])

def listJson : List Result → List Json
  | [] => []
  | r :: rest => toJson r :: listJson rest

end

end Result

end DiceNotation
