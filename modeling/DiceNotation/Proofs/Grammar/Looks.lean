import DiceNotation.Grammar.Expression
import DiceNotation.Proofs.Grammar.Places

/-!
# The grammar by its looks

Rules that look at the next token in the middle of something else, put so that they look
first: numbers, keep and drop, matches and labels. What follows a look is then a rule of its
own (`magnitude`, `selected`, `matched`).
-/

namespace DiceNotation

namespace Token.Kind

/-- The kinds of token that an operand may follow or not. -/
def openEnded : List Kind := [
  .keep, .d, .high, .low, .explode, .compound, .penetrate, .reroll, .rerollOnce]

/-- The kinds of known tokens that are no number literals. -/
def isPlain (k : Kind) : Bool := k ≠ .error ∧ k ≠ .integer ∧ k ≠ .decimal

end Token.Kind

namespace Parser

/-! ## Tables of kinds -/

/-- A table of kinds has only the kinds of tokens that it is about. -/
theorem ne_of_eq_some {ω : Type} {opOf? : Token.Kind → Option ω} {kind other : Token.Kind} {op : ω}
    (hother : opOf? other = none) (h : opOf? kind = some op) : kind ≠ other := by
  rintro rfl
  rw [hother] at h
  cases h

/-- A table without literals and unknown tokens. -/
theorem isPlain_of_eq_some {ω : Type} {opOf? : Token.Kind → Option ω} {kind : Token.Kind} {op : ω}
    (herror : opOf? .error = none) (hinteger : opOf? .integer = none)
    (hdecimal : opOf? .decimal = none) (h : opOf? kind = some op) : kind.isPlain :=
  decide_eq_true ⟨ne_of_eq_some herror h, ne_of_eq_some hinteger h, ne_of_eq_some hdecimal h⟩

/-- Behind `h` and `l` there may be a number of dice. -/
theorem mem_openEnded_of_isSome_extremeOf? {kind : Token.Kind} (h : (extremeOf? kind).isSome) :
    kind ∈ Token.Kind.openEnded := by
  cases kind <;> first | decide | cases h

/-- Behind a mechanic there may be a trigger. -/
theorem mem_openEnded_of_isSome_mechanicOf? {kind : Token.Kind} (h : (mechanicOf? kind).isSome) :
    kind ∈ Token.Kind.openEnded := by
  cases kind <;> first | decide | cases h

theorem isPlain_of_mem_openEnded {kind : Token.Kind} (h : kind ∈ Token.Kind.openEnded) :
    kind.isPlain := by
  cases kind <;> first | rfl | exact absurd h (by decide)

/-- Powers are the one operation of their level. -/
theorem eq_pow_of_powerOpOf? {kind : Token.Kind} {op : ArithOp} (h : powerOpOf? kind = some op) :
    op = .pow := by
  cases kind <;> cases h
  rfl

theorem mul_or_div_or_rem_of_factorOpOf? {kind : Token.Kind} {op : ArithOp}
    (h : factorOpOf? kind = some op) : op = .mul ∨ op = .div ∨ op = .rem := by
  cases kind <;> cases h <;> decide

/-- The kinds that a term can begin with are these and the names of functions. -/
theorem not_mem_termStart {kind : Token.Kind}
    (hkind : kind ∉ [.integer, .decimal, .minus, .leftParen, .inlineOpen, .leftBrace, .d])
    (hfn : functionOf? kind = none) : kind ∉ termStart := by
  cases kind <;> first | decide | exact absurd (by decide) hkind | cases hfn

/-! ## Numbers -/

/-- The digits of a number, with the sign that was read before them. -/
def magnitude (negative : Bool) : Parser Node := do
  match ← look with
  | some ⟨.integer, text, _⟩ =>
    match integerValue? text with
    | some n =>
      skip
      return .int (if negative then -n else n)
    | none => refuse .invalidNumber
  | some ⟨.decimal, text, _⟩ =>
    match Double.ofText? text with
    | some x =>
      skip
      return .number (.float (if negative then -x else x))
    | none => refuse .invalidNumber
  | _ => unexpected [.integer, .decimal]

/-- Accepting a token is looking at its kind, and taking it if it is the one. -/
theorem accept_bind {α : Type} {kind : Token.Kind} (f : Bool → Parser α) :
    (accept kind >>= f) =
      (peek >>= fun o => if o = some kind then skip >>= fun _ => f true else f false) := by
  unfold accept
  rw [bind_assoc]
  congr 1
  funext o
  split
  · simp
  · simp

/-- A number is a magnitude with a sign before it or without. -/
theorem number_eq :
    number = (peek >>= fun o =>
      if o = some .minus then skip >>= fun _ => magnitude true else magnitude false) := by
  rw [← accept_bind magnitude]
  unfold number
  congr 1
  funext negative c
  obtain ⟨previous, rest, finish⟩ := c
  cases rest with
  | nil => rfl
  | cons t ts =>
    obtain ⟨kind, start, text⟩ := t
    cases kind <;> rfl

/-! ## Modifiers -/

/-- The end of the ranking, if one is named. -/
def extreme? : Parser (Option Extreme) := do
  match (← touching).bind extremeOf? with
  | some extreme =>
    skip
    return some extreme
  | none => return none

/-- Keep or drop, from behind its first token on. -/
def selected (nested : Parser Node) (action : Selection) : Parser (Modifier Node) := do
  let extreme ← extreme?
  let count ← operand? nested
  return .select action extreme (count.getD (.int 1))

/-- The first token tells what is done with the selected dice; what is read behind it is the
same. -/
theorem selection_eq (nested : Parser Node) :
    selection nested = (peek >>= fun o =>
      skip >>= fun _ => selected nested (if o = some .keep then .keep else .drop)) := by
  have hselected (action : Selection) : selected nested action = (do
      let extreme := (← touching).bind extremeOf?
      if extreme.isSome then skip
      let count ← operand? nested
      return .select action extreme (count.getD (.int 1))) := by
    unfold selected extreme?
    rw [bind_assoc]
    congr 1
    funext o
    cases o.bind extremeOf? with
    | none => simp
    | some extreme => simp
  unfold selection
  rw [accept_bind]
  congr 1
  funext o
  split
  · simp [hselected]
  · simp [hselected]

/-- How many of a face a match takes, two unless it is written. -/
def least : Parser Node := do
  if (← touching) = some .integer then number else pure (.int 2)

/-- A match, from behind its first token on. -/
def matched (nested : Parser Node) (counts : Bool) : Parser (Matching Node) := do
  let least ← least
  let condition ← matchCondition? nested
  return ⟨least, counts, condition.map Condition.compare, condition.map Condition.target⟩

/-- The first token tells whether matches are counted; what is read behind it is the same.
-/
theorem matching_eq (nested : Parser Node) :
    matching nested = (peek >>= fun o =>
      skip >>= fun _ => matched nested (decide (o ≠ some .match))) := by
  have hmatched (counts : Bool) : matched nested counts = (do
      let least ← if (← touching) = some .integer then number else pure (.int 2)
      let condition ← matchCondition? nested
      return ⟨least, counts, condition.map Condition.compare,
        condition.map Condition.target⟩) := by
    unfold matched least
    rw [bind_assoc]
    congr 1
    funext o
    split
    · rfl
    · simp
  unfold matching
  rw [accept_bind]
  congr 1
  funext o
  split
  · simp [*]
  · simp [*]

/-! ## Steps of repetitions -/

/-- A step that gives nothing where it sees nothing declines at the end of the text. -/
theorem declines_look {α : Type} {f : Option Sight → Parser (Option α)} (h : f none = pure none) :
    Declines (look >>= f) := by
  intro c hc
  rw [run_look_bind, Cursor.sight_eq_none.2 hc, h]
  rfl

theorem declines_touching {α : Type} {f : Option Token.Kind → Parser (Option α)}
    (h : f none = pure none) : Declines (touching >>= f) := by
  rw [touching_bind]
  exact declines_look h

theorem declines_peek {α : Type} {f : Option Token.Kind → Parser (Option α)}
    (h : f none = pure none) : Declines (peek >>= f) := by
  rw [peek_bind]
  exact declines_look h

theorem declines_dieSuffix (nested : Parser Node) (spec : DieSpec Node) :
    Declines (dieSuffix nested spec) := declines_touching rfl

theorem declines_groupSuffix (nested : Parser Node) : Declines (groupSuffix nested) :=
  declines_touching rfl

theorem declines_member? (nested : Parser Node) : Declines (member? nested) := by
  unfold member?
  rw [accept_bind]
  exact declines_peek rfl

/-- A label is the text of its token without the first and the last character. -/
theorem label?_eq : label? = (look >>= fun o =>
    match o with
    | some ⟨.label, text, _⟩ =>
      skip >>= fun _ => pure (some (String.ofList text.toList.tail.dropLast))
    | _ => pure none) := by
  funext c
  obtain ⟨previous, rest, finish⟩ := c
  cases rest with
  | nil => rfl
  | cons t ts =>
    obtain ⟨kind, start, text⟩ := t
    cases kind <;> rfl

theorem declines_label? : Declines label? := by
  rw [label?_eq]
  exact declines_look rfl

theorem declines_link? {ω : Type} (opOf? : Token.Kind → Option ω) (operand : Parser Node) :
    Declines (link? opOf? operand) := declines_peek rfl

end Parser

end DiceNotation
