import DiceNotation.Number

/-!
# Structured data

The values of JSON, with integers and doubles told apart: `5` and `5.0` are
different values. Records are read by the names of their fields; a record may
also be given as the list of its fields in their order, and fields at the end
may then be left out (`Json.fields?`). The tag that says what type a record has
comes first there; it is the name of the type or its number (`Json.typed?`).
-/

namespace DiceNotation

/-- A JSON value. -/
inductive Json where
  | null
  | bool (value : Bool)
  | int (value : Int)
  | float (value : Double)
  | string (value : String)
  | array (items : List Json)
  | object (fields : List (String × Json))

namespace Json

/-! ## Depth -/

mutual

/-- How deep arrays and objects are nested. -/
def depth : Json → Nat
  | .array items => itemsDepth items + 1
  | .object fields => fieldsDepth fields + 1
  | _ => 1

def itemsDepth : List Json → Nat
  | [] => 0
  | item :: rest => max (depth item) (itemsDepth rest)

def fieldsDepth : List (String × Json) → Nat
  | [] => 0
  | (_, value) :: rest => max (depth value) (fieldsDepth rest)

end

/-! ## Reading -/

def string? : Json → Option String
  | .string s => some s
  | _ => none

/-- The value holds nothing. -/
def isVoid : Json → Bool
  | .null | .object [] => true
  | _ => false

/-- The text of a symbol: a string, or the name of the only field of an object if
that field holds nothing. -/
def symbolText? : Json → Option String
  | .string s => some s
  | .object [(s, content)] => if content.isVoid then some s else none
  | _ => none

def bool? : Json → Option Bool
  | .bool b => some b
  | _ => none

/-- The items of an array, each read in the same way. -/
def list? {α : Type} (read : Json → Option α) : Json → Option (List α)
  | .array items => items.mapM read
  | _ => none

/-- The fields of a record whose fields have the given names, in that order. -/
def fields? (names : List String) : Json → Option (String → Option Json)
  | .object fields => some fun name => fields.lookup name
  | .array items =>
    if items.length ≤ names.length then
      some fun name => (names.idxOf? name).bind fun i => items[i]?
    else none
  | _ => none

/-- The tag of a record, and the record without it. -/
def tagged? : Json → Option (Json × Json)
  | .object fields => do return (← fields.lookup "type", .object fields)
  | .array (tag :: items) => some (tag, .array items)
  | _ => none

/-- The name that a tag stands for: itself if it is a text, and the name at that
place of the list if it is a number of sixty-four bits. A place past the end
stands for a type that nothing knows. -/
def typeName? (names : List String) : Json → Option String
  | .string name => some name
  | .int n =>
    if 0 ≤ n ∧ n < UInt64.size then some (names.getD n.toNat "unsupported") else none
  | _ => none

/-- The name of a record's type, and the record without its tag. -/
def typed? (names : List String) (j : Json) : Option (String × Json) := do
  let (tag, content) ← j.tagged?
  return (← tag.typeName? names, content)

/-- Nothing stands in the record that a type without fields could not have. -/
def isBare : Json → Bool
  | .object _ => true
  | .array items => items.isEmpty
  | _ => false

/-- A field that may be absent or null. -/
def optional? {α : Type} (read : Json → Option α) : Option Json → Option (Option α)
  | none | some .null => some none
  | some j => (read j).map some

/-- A field that may be absent, for which `default` stands then. -/
def orElse? {α : Type} (default : α) (read : Json → Option α) : Option Json → Option α
  | none => some default
  | some j => read j

/-! ## Writing -/

/-- A field that is left out when there is nothing in it. -/
def present {α : Type} (name : String) (write : α → Json) : Option α → List (String × Json)
  | some a => [(name, write a)]
  | none => []

/-- A list that is left out when it is empty. -/
def nonempty (name : String) : List Json → List (String × Json)
  | [] => []
  | items => [(name, .array items)]

/-- A record with its type. -/
def record (tag : String) (fields : List (String × Json)) : Json :=
  .object (("type", .string tag) :: fields)

end Json

/-! ## Numbers -/

/-- A number as it is; there is no value for an infinity or a NaN but null. -/
def Number.toJson : Number → Json
  | .int n => .int n.toInt
  | .float x => if x.isFinite then .float x else .null

/-- An integer that an `Int64` cannot hold is read as a double. -/
def Number.ofJson? : Json → Option Number
  | .int n => some (Number.ofExact n (Double.ofInt n))
  | .float x => some (.float x)
  | _ => none

end DiceNotation
