import DiceNotation.Roll.Render

/-!
# A writer with a memory

A result can be written in Markdown by a writer that goes through it once and
remembers whether it is inside a struck part. It is set when a part is struck out
and cleared behind that part, so it comes back as it was, whatever is written
(`Result.run_write`), and the text is the one that passes the same down. A writer
that starts each line afresh has no memory of the lines before
(`Result.run_writeLine`).
-/

namespace DiceNotation

/-- What is written, with a memory of being inside a struck part. -/
abbrev Writing := StateM Bool

namespace Writing

/-- Strikes out what is written, if it does not count and nothing around it is
struck out already. -/
def strike (valid : Bool) (body : Writing String) : Writing String := do
  if !valid && !(← get) then
    set true
    let text ← body
    set false
    return "~~" ++ text ++ "~~"
  else body

/-- One die. -/
def die (d : RolledDie) : Writing String := do
  let face := toString d.roll.toInt ++ (if d.exploded then "!" else "")
  return Style.withLabel d.outcome.label
    (← strike d.outcome.valid (return Style.markdown.critical d.critical face))

end Writing

namespace Result

open Writing

mutual

/-- Writes a result. -/
def write : Result → Writing String
  | mk outcome shape =>
    return Style.withLabel outcome.label (← strike outcome.valid (writeBody outcome.value shape))

/-- Writes a result without its label and its own mark. -/
def writeBody (value : Number) : Shape Result → Writing String
  | .number => return value.text
  | .dice count sides rolls _ => do
    let count' ← write count
    let sides ← writeSides sides
    let rolls ← rolls.mapM die
    return Style.enclose (!count.isNumber) count' ++ "d" ++ sides ++
      " (" ++ ", ".intercalate rolls ++ ")"
  | .sum terms ops => return Style.interleave (← writeOperands terms) (ops.map SumOp.symbol)
  | .chain terms ops => return Style.interleave (← writeOperands terms) (ops.map ArithOp.symbol)
  | .group members => return "\x7b" ++ ", ".intercalate (← writeAll members) ++ "\x7d"
  | .function fn arg => return fn.symbol ++ "(" ++ (← write arg) ++ ")"

def writeSides : Sides Result → Writing String
  | .fate => return "F"
  | .numeric faces => return Style.enclose (!faces.isNumber) (← write faces)

/-- Writes the terms of a chain, in parentheses where they are chains themselves. -/
def writeOperands : List Result → Writing (List String)
  | [] => return []
  | term :: rest => do
    let text ← write term
    return Style.enclose term.isChain text :: (← writeOperands rest)

def writeAll : List Result → Writing (List String)
  | [] => return []
  | member :: rest => do
    let text ← write member
    return text :: (← writeAll rest)

end

/-- Writes a whole result and its value, from a fresh start. -/
def writeLine (r : Result) : Writing String := do
  set false
  return (← r.write) ++ " = `" ++ r.value.text ++ "`"

end Result

/-! ## The memory comes back -/

namespace Writing

variable {α β : Type}

/-- What is written depends on the memory as said, and the memory comes back. -/
def Restores (m : Writing α) (text : Bool → α) : Prop :=
  ∀ struck, m.run struck = (text struck, struck)

theorem restores_pure (a : α) : Restores (pure a) fun _ => a := fun _ => rfl

/-- The second text is written with the memory that the first one has restored. -/
theorem Restores.bind {m : Writing α} {f : α → Writing β} {text : Bool → α}
    {text' : α → Bool → β} (hm : Restores m text) (hf : ∀ a, Restores (f a) (text' a)) :
    Restores (m >>= f) fun struck => text' (text struck) struck := by
  intro struck
  rw [StateT.run_bind, hm struck]
  exact hf (text struck) struck

theorem Restores.of_eq {m : Writing α} {text text' : Bool → α} (hm : Restores m text)
    (h : ∀ struck, text struck = text' struck) : Restores m text' :=
  funext h ▸ hm

/-- **Striking out** brings the memory back: it was clear if it was set here. -/
theorem Restores.strike {body : Writing String} {text : Bool → String} (h : Restores body text)
    (valid : Bool) :
    Restores (strike valid body) fun struck =>
      if Style.markdown.strikes struck valid then "~~" ++ text true ++ "~~" else text struck := by
  intro struck
  cases valid with
  | true => exact h struck
  | false =>
    cases struck with
    | true => exact h true
    | false =>
      change ("~~" ++ (body.run true).1 ++ "~~", false) = ("~~" ++ text true ++ "~~", false)
      rw [h true]

/-- A die is written with the marks for what is struck out around it. -/
theorem restores_die (d : RolledDie) :
    Restores (die d) fun struck => Style.markdown.die struck d :=
  ((restores_pure _).strike _).bind fun _ => restores_pure _

theorem restores_mapM {f : α → Writing β} {text : Bool → α → β}
    (h : ∀ a, Restores (f a) fun struck => text struck a) (l : List α) :
    Restores (l.mapM f) fun struck => l.map (text struck) := by
  induction l with
  | nil => exact restores_pure []
  | cons a l ih =>
    rw [List.mapM_cons]
    exact (h a).bind fun _ => ih.bind fun _ => restores_pure _

end Writing

namespace Result

open Writing

mutual

/-- A result is written as its text, and the memory comes back. -/
theorem restores_write : (r : Result) →
    Restores r.write fun struck => r.textWithin .markdown struck
  | mk outcome shape => by
    rw [write]
    refine (((restores_writeBody outcome.value shape).strike outcome.valid).bind fun _ =>
      restores_pure _).of_eq fun struck => ?_
    rw [textWithin]

theorem restores_writeBody (value : Number) : (shape : Shape Result) →
    Restores (writeBody value shape) fun struck => bodyWithin .markdown struck value shape
  | .number => by
    rw [writeBody]
    exact (restores_pure _).of_eq fun struck => by rw [bodyWithin]
  | .dice count sides rolls _ => by
    rw [writeBody]
    refine ((restores_write count).bind fun _ => (restores_writeSides sides).bind fun _ =>
      (restores_mapM restores_die rolls).bind fun _ => restores_pure _).of_eq fun struck => ?_
    rw [bodyWithin]
  | .sum terms ops => by
    rw [writeBody]
    refine ((restores_writeOperands terms).bind fun _ => restores_pure _).of_eq fun struck => ?_
    rw [bodyWithin]
  | .chain terms ops => by
    rw [writeBody]
    refine ((restores_writeOperands terms).bind fun _ => restores_pure _).of_eq fun struck => ?_
    rw [bodyWithin]
  | .group members => by
    rw [writeBody]
    refine ((restores_writeAll members).bind fun _ => restores_pure _).of_eq fun struck => ?_
    rw [bodyWithin]
  | .function fn arg => by
    rw [writeBody]
    refine ((restores_write arg).bind fun _ => restores_pure _).of_eq fun struck => ?_
    rw [bodyWithin]

theorem restores_writeSides : (sides : Sides Result) →
    Restores (writeSides sides) fun struck => sidesWithin .markdown struck sides
  | .fate => by
    rw [writeSides]
    exact (restores_pure _).of_eq fun struck => by rw [sidesWithin]
  | .numeric faces => by
    rw [writeSides]
    refine ((restores_write faces).bind fun _ => restores_pure _).of_eq fun struck => ?_
    rw [sidesWithin]

theorem restores_writeOperands : (terms : List Result) →
    Restores (writeOperands terms) fun struck => operandsWithin .markdown struck terms
  | [] => by
    rw [writeOperands]
    exact (restores_pure _).of_eq fun struck => by rw [operandsWithin]
  | term :: rest => by
    rw [writeOperands]
    refine ((restores_write term).bind fun _ => (restores_writeOperands rest).bind fun _ =>
      restores_pure _).of_eq fun struck => ?_
    rw [operandsWithin]

theorem restores_writeAll : (members : List Result) →
    Restores (writeAll members) fun struck => textsWithin .markdown struck members
  | [] => by
    rw [writeAll]
    exact (restores_pure _).of_eq fun struck => by rw [textsWithin]
  | member :: rest => by
    rw [writeAll]
    refine ((restores_write member).bind fun _ => (restores_writeAll rest).bind fun _ =>
      restores_pure _).of_eq fun struck => ?_
    rw [textsWithin]

end

/-- **The writer brings its memory back**, and writes the text that passes it
down. -/
theorem run_write (r : Result) (struck : Bool) :
    r.write.run struck = (r.textWithin .markdown struck, struck) :=
  restores_write r struck

/-- **Every line is written as by a new writer.** -/
theorem run_writeLine (r : Result) (struck : Bool) :
    r.writeLine.run struck = (r.line .markdown, false) := by
  change ((r.write.run false).1 ++ " = `" ++ r.value.text ++ "`", (r.write.run false).2) = _
  rw [run_write]
  rfl

end Result

end DiceNotation
