import DiceNotation.Proofs.Notation.Parts
import DiceNotation.Roll.Result

/-!
# Places in a result

A result is a tree, and each of its nodes stands at a `Place`. A law that says
what has to hold at every place (`Result.Everywhere`) is what one node has to
obey and what holds in its parts; the parts are those of the shape, so whatever
touches only the outcome of a node leaves them alone (`Everywhere.move`).
-/

namespace DiceNotation

variable {ε : Type}

/-- Where a result stands. -/
inductive Place where
  /-- By itself: a whole roll, a count, sides, the argument of a function. -/
  | apart
  /-- The term of an expression with so many before it. -/
  | term (i : Nat)
  /-- The member of a group with so many before it, and the size of the group. -/
  | member (i size : Nat)
deriving DecidableEq

namespace Place

/-- The order that stands for the place: parts of an expression are numbered
from its operators, members from the group. -/
@[simp] def order : Place → Nat
  | .apart | .term 0 => 0
  | .term (i + 1) => i
  | .member i _ => i

@[simp] def isMember : Place → Bool
  | .member .. => true
  | _ => false

end Place

/-- The parts of a shape, and where they stand in it. -/
def Shape.places : Shape ε → List (Place × ε)
  | .number => []
  | .dice count sides _ _ => (count :: sides.parts).map (.apart, ·)
  | .sum terms _ | .chain terms _ => terms.mapIdx fun i t => (.term i, t)
  | .group members => members.mapIdx fun i m => (.member i members.length, m)
  | .function _ arg => [(.apart, arg)]

/-- The dice that lie in this layer of a result. -/
def Shape.rolls : Shape ε → List RolledDie
  | .dice _ _ rolls _ => rolls
  | _ => []

/-- The parts of a shape. -/
def Shape.parts : Shape ε → List ε
  | .number => []
  | .dice count sides _ _ => count :: sides.parts
  | .sum terms _ | .chain terms _ => terms
  | .group members => members
  | .function _ arg => [arg]

/-- The parts of a shape are what stands in its places. -/
theorem Shape.map_snd_places (shape : Shape ε) : shape.places.map Prod.snd = shape.parts := by
  cases shape <;> simp [places, parts, Function.comp_def, List.mapIdx_eq_zipIdx_map]

theorem Shape.mem_parts_of_mem_places {shape : Shape ε} {q : Place × ε} (h : q ∈ shape.places) :
    q.2 ∈ shape.parts :=
  shape.map_snd_places ▸ List.mem_map_of_mem h

/-- Parts are smaller than the shape that they stand in. -/
theorem Shape.sizeOf_lt_of_mem_parts {shape : Shape Result} {r : Result} (h : r ∈ shape.parts) :
    sizeOf r < sizeOf shape := by
  cases shape with
  | number => simp [parts] at h
  | dice count sides rolls matched =>
    cases sides <;> simp_all [parts, Sides.parts] <;> rcases h with rfl | rfl <;> omega
  | sum terms ops | chain terms ops | group members =>
    have := List.sizeOf_lt_of_mem h
    simp only [sum.sizeOf_spec, chain.sizeOf_spec, group.sizeOf_spec, parts] at *
    omega
  | function fn arg =>
    obtain rfl : r = arg := List.mem_singleton.1 h
    rw [function.sizeOf_spec]
    omega

namespace Result

open Counted (setOrder setValue setLabel)

/-- **Induction over results**, through the parts of each. -/
theorem induction {P : Result → Prop} (h : ∀ r, (∀ t ∈ r.shape.parts, P t) → P r) : ∀ r, P r
  | mk outcome shape => h _ fun t _ => induction h t
termination_by r => r
decreasing_by
  have := Shape.sizeOf_lt_of_mem_parts ‹_›
  simp only [mk.sizeOf_spec, Result.shape] at *
  omega

/-! ## Outcomes -/

section Outcome

variable (outcome : Outcome) (r : Result)

@[simp] theorem counted_outcome : Counted.outcome r = r.outcome := rfl

@[simp] theorem counted_setOutcome : Counted.setOutcome outcome r = r.setOutcome outcome := rfl

@[simp] theorem counted_discard :
    Counted.discard r = r.setOutcome { r.outcome with valid := false } := rfl

@[simp] theorem outcome_setOutcome : (r.setOutcome outcome).outcome = outcome := by
  cases r
  rfl

@[simp] theorem shape_setOutcome : (r.setOutcome outcome).shape = r.shape := by
  cases r
  rfl

@[simp] theorem shape_setOrder (order : Nat) : (setOrder order r).shape = r.shape :=
  shape_setOutcome ..

@[simp] theorem outcome_setOrder (order : Nat) :
    (setOrder order r).outcome = { r.outcome with order := order } :=
  outcome_setOutcome ..

@[simp] theorem value_setOrder (order : Nat) : (setOrder order r).value = r.value := by
  rw [value, outcome_setOrder, value]

@[simp] theorem shape_setValue (v : Number) : (setValue v r).shape = r.shape :=
  shape_setOutcome ..

@[simp] theorem outcome_setValue (v : Number) :
    (setValue v r).outcome = { r.outcome with value := v } :=
  outcome_setOutcome ..

end Outcome

/-! ## Laws -/

/-- The law holds of the result at its place, and in all of its parts. -/
inductive Everywhere (P : Place → Result → Prop) : Place → Result → Prop
  | intro {place : Place} {r : Result} :
    P place r → (∀ q ∈ r.shape.places, Everywhere P q.1 q.2) → Everywhere P place r

namespace Everywhere

variable {P : Place → Result → Prop} {place : Place} {r : Result}

/-- What holds everywhere holds here. -/
theorem here (h : r.Everywhere P place) : P place r := by
  obtain ⟨h, -⟩ := h
  exact h

/-- It holds in all places below. -/
theorem inside (h : r.Everywhere P place) : ∀ q ∈ r.shape.places, q.2.Everywhere P q.1 := by
  obtain ⟨-, h⟩ := h
  exact h

theorem mono {Q : Place → Result → Prop} (hPQ : ∀ place r, P place r → Q place r)
    (h : r.Everywhere P place) : r.Everywhere Q place := by
  induction h with
  | intro here _ ih => exact .intro (hPQ _ _ here) ih

/-- A law that holds in the parts wherever they stand. -/
theorem of_parts (here : P place r) (h : ∀ t ∈ r.shape.parts, ∀ place, t.Everywhere P place) :
    r.Everywhere P place :=
  .intro here fun q hq => h q.2 (Shape.mem_parts_of_mem_places hq) q.1

/-- A result with the same parts, at a place of its own. -/
theorem move (h : r.Everywhere P place) {r' : Result} {place' : Place}
    (hshape : r'.shape = r.shape) (h' : P place' r') : r'.Everywhere P place' :=
  .intro h' (hshape ▸ h.inside)

end Everywhere

end Result

end DiceNotation
