import DiceNotation.Console
import DiceNotation.Roll.Generator

/-!
# The program

Answers the lines of the standard input, one by one, until it ends.
-/

open DiceNotation

/-- Writes a prompt, reads a line, answers it, and so on. -/
partial def converse (input output errors : IO.FS.Stream) (session : Session) : IO Unit := do
  output.putStr Console.prompt
  output.flush
  let line ← try input.getLine catch _ => pure ""
  if line.isEmpty then return
  let (answer, session) := Console.answer line session
  output.putStr answer.results
  errors.putStr answer.errors
  converse input output errors session

/-- Starts from a seed of the system's. -/
def main : IO Unit := do
  let seed ← IO.rand 0 maxCount
  converse (← IO.getStdin) (← IO.getStdout) (← IO.getStderr)
    { supply := .generated (UInt64.ofNat seed) maxCount }
