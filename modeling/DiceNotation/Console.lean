import DiceNotation.Roll.Render
import DiceNotation.Session

/-!
# The console

Lines of notation in, results out: every line is trimmed, blank ones are
skipped, and each other one is answered by its result in Markdown, or by an
error. A prompt stands before every line, and one before the end of the input.
-/

namespace DiceNotation

namespace Console

/-- What is written: results and prompts, and errors apart from them. -/
structure Output where
  results : String
  errors : String
deriving DecidableEq

instance : Append Output := ⟨fun a b => ⟨a.results ++ b.results, a.errors ++ b.errors⟩⟩

def prompt : String := "> "

/-- The answer to one line. -/
def answer (line : String) (session : Session) : Output × Session :=
  match Text.trim line.toList with
  | [] => (⟨"", ""⟩, session)
  | text =>
    match session.roll (String.ofList text) with
    | (.ok result, session) => (⟨result.line .markdown ++ "\n", ""⟩, session)
    | (.error failure, session) => (⟨"", "Error: " ++ failure.message ++ "\n"⟩, session)

/-- The lines of an input. A line end closes a line, so nothing follows the
last one of them. -/
def lines (input : String) : List String :=
  let pieces := input.splitOn "\n"
  if pieces.getLast? = some "" then pieces.dropLast else pieces

/-- All that is written after the first prompt. -/
def respond : List String → Session → Output
  | [], _ => ⟨"", ""⟩
  | line :: rest, session =>
    let (output, session) := answer line session
    output ++ ⟨prompt, ""⟩ ++ respond rest session

/-- All that is written for an input. -/
def run (input : String) (session : Session) : Output :=
  ⟨prompt, ""⟩ ++ respond (lines input) session

end Console

end DiceNotation
