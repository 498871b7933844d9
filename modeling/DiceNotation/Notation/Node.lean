import DiceNotation.Notation.Form

/-!
# Expression trees

A `Node` is a form with a label, whose parts are nodes again. Everything that
goes through a whole tree is one `fold`: it hands each layer to a function,
with the answers for the parts already in their places. `fold_term` is the
equation that later proofs read, and the functions on lists and modifiers that
the recursion needs are equal to `map` (`foldForm_eq`).
-/

namespace DiceNotation

/-- A parsed or deserialized expression. -/
inductive Node where
  | term (form : Form Node) (label : Option String)
  /-- An expression of a kind that this library does not know. -/
  | unsupported

namespace Node

/-! ## Building -/

def number (value : Number) : Node := .term (.number value) none

def int (value : Int64) : Node := number (.int value)

def inline (expr : Node) : Node := .term (.inline expr) none

def function (fn : NumFn) (arg : Node) : Node := .term (.function fn arg) none

/-- A single term stands for itself; more make a sum. -/
def sum (head : Node) : List (Link SumOp Node) → Node
  | [] => head
  | tail => .term (.sum head tail) none

/-- A single term stands for itself; more make a chain. -/
def chain (head : Node) : List (Link ArithOp Node) → Node
  | [] => head
  | tail => .term (.chain head tail) none

/-! ## Labels -/

def label : Node → Option String
  | .term _ label => label
  | .unsupported => none

/-- The node with its label replaced. An unsupported node takes no label. -/
def withLabel (label : String) : Node → Node
  | .term form _ => .term form (some label)
  | .unsupported => .unsupported

/-! ## Folding -/

section Fold

variable {α : Type} (term : Form α → Option String → α) (unsupported : α)

mutual

/-- The answer for a tree from the answers for its parts. -/
def fold : Node → α
  | .term form label => term (foldForm form) label
  | .unsupported => unsupported

def foldForm : Form Node → Form α
  | .number value => .number value
  | .inline expr => .inline (fold expr)
  | .die spec => .die (foldSpec spec)
  | .group first rest mods => .group (fold first) (foldList rest) (foldModifiers mods)
  | .sum head tail => .sum (fold head) (foldSumLinks tail)
  | .chain head tail => .chain (fold head) (foldChainLinks tail)
  | .function fn arg => .function fn (fold arg)

def foldSpec : DieSpec Node → DieSpec α
  | ⟨sides, count, mods, targets, matching, sort⟩ =>
    ⟨foldSides sides, fold count, foldModifiers mods, foldModifiers targets,
      foldMatching matching, sort⟩

def foldSides : Sides Node → Sides α
  | .fate => .fate
  | .numeric faces => .numeric (fold faces)

def foldMatching : Option (Matching Node) → Option (Matching α)
  | none => none
  | some ⟨least, counts, compare, none⟩ => some ⟨fold least, counts, compare, none⟩
  | some ⟨least, counts, compare, some target⟩ =>
    some ⟨fold least, counts, compare, some (fold target)⟩

def foldModifiers : List (Modifier Node) → List (Modifier α)
  | [] => []
  | .select action extreme count :: rest =>
    .select action extreme (fold count) :: foldModifiers rest
  | .test meaning ⟨compare, target⟩ :: rest =>
    .test meaning ⟨compare, fold target⟩ :: foldModifiers rest
  | .again mechanic none :: rest => .again mechanic none :: foldModifiers rest
  | .again mechanic (some ⟨compare, target⟩) :: rest =>
    .again mechanic (some ⟨compare, fold target⟩) :: foldModifiers rest
  | .unsupported :: rest => .unsupported :: foldModifiers rest

def foldList : List Node → List α
  | [] => []
  | node :: rest => fold node :: foldList rest

def foldSumLinks : List (Link SumOp Node) → List (Link SumOp α)
  | [] => []
  | ⟨op, node⟩ :: rest => ⟨op, fold node⟩ :: foldSumLinks rest

def foldChainLinks : List (Link ArithOp Node) → List (Link ArithOp α)
  | [] => []
  | ⟨op, node⟩ :: rest => ⟨op, fold node⟩ :: foldChainLinks rest

end

theorem foldList_eq (nodes : List Node) :
    foldList term unsupported nodes = nodes.map (fold term unsupported) := by
  induction nodes with
  | nil => simp [foldList]
  | cons node rest ih => simp [foldList, ih]

theorem foldSumLinks_eq (links : List (Link SumOp Node)) :
    foldSumLinks term unsupported links = links.map (Link.map (fold term unsupported)) := by
  induction links with
  | nil => simp [foldSumLinks]
  | cons l rest ih => simp [foldSumLinks, Link.map, ih]

theorem foldChainLinks_eq (links : List (Link ArithOp Node)) :
    foldChainLinks term unsupported links = links.map (Link.map (fold term unsupported)) := by
  induction links with
  | nil => simp [foldChainLinks]
  | cons l rest ih => simp [foldChainLinks, Link.map, ih]

theorem foldModifiers_eq (mods : List (Modifier Node)) :
    foldModifiers term unsupported mods = mods.map (Modifier.map (fold term unsupported)) := by
  induction mods with
  | nil => simp [foldModifiers]
  | cons m rest ih =>
    match m with
    | .select _ _ _ => simp [foldModifiers, Modifier.map, ih]
    | .test _ _ => simp [foldModifiers, Modifier.map, Condition.map, ih]
    | .again _ none => simp [foldModifiers, Modifier.map, ih]
    | .again _ (some _) => simp [foldModifiers, Modifier.map, Condition.map, ih]
    | .unsupported => simp [foldModifiers, Modifier.map, ih]

theorem foldMatching_eq (matching : Option (Matching Node)) :
    foldMatching term unsupported matching =
      matching.map (Matching.map (fold term unsupported)) := by
  match matching with
  | none => simp [foldMatching]
  | some ⟨_, _, _, none⟩ => simp [foldMatching, Matching.map]
  | some ⟨_, _, _, some _⟩ => simp [foldMatching, Matching.map]

theorem foldSides_eq (sides : Sides Node) :
    foldSides term unsupported sides = sides.map (fold term unsupported) := by
  cases sides <;> simp [foldSides, Sides.map]

theorem foldSpec_eq (spec : DieSpec Node) :
    foldSpec term unsupported spec = spec.map (fold term unsupported) := by
  cases spec
  simp [foldSpec, DieSpec.map, foldModifiers_eq, foldSides_eq, foldMatching_eq]

theorem foldForm_eq (form : Form Node) :
    foldForm term unsupported form = form.map (fold term unsupported) := by
  cases form <;>
    simp [foldForm, Form.map, foldSpec_eq, foldList_eq, foldModifiers_eq, foldSumLinks_eq,
      foldChainLinks_eq]

/-- **One layer of a fold**: the layer's function, on the form with every part
folded. -/
theorem fold_term (form : Form Node) (label : Option String) :
    fold term unsupported (.term form label) =
      term (form.map (fold term unsupported)) label := by
  rw [fold, foldForm_eq]

theorem fold_unsupported : fold term unsupported .unsupported = unsupported := by
  rw [fold]

end Fold

end Node

end DiceNotation
