import DiceNotation.Console
import DiceNotation.Json.Node
import DiceNotation.Json.Result
import DiceNotation.Main
import DiceNotation.Proofs.Console.Independence
import DiceNotation.Proofs.Double.Overflow
import DiceNotation.Proofs.Grammar.Placeless
import DiceNotation.Proofs.Grammar.Refusals
import DiceNotation.Proofs.Grammar.Rules
import DiceNotation.Proofs.Grammar.Subtraction
import DiceNotation.Proofs.Grammar.Suffixes
import DiceNotation.Proofs.Grammar.Trailing
import DiceNotation.Proofs.Json.Distinct
import DiceNotation.Proofs.Json.Parsed
import DiceNotation.Proofs.Number.Integral
import DiceNotation.Proofs.Roll.Bounds
import DiceNotation.Proofs.Roll.Ceiling
import DiceNotation.Proofs.Roll.Chains
import DiceNotation.Proofs.Roll.Compounds
import DiceNotation.Proofs.Roll.Critical
import DiceNotation.Proofs.Roll.Faces
import DiceNotation.Proofs.Roll.Labels
import DiceNotation.Proofs.Roll.Marked
import DiceNotation.Proofs.Roll.MatchCounts
import DiceNotation.Proofs.Roll.Orders
import DiceNotation.Proofs.Roll.Readable
import DiceNotation.Proofs.Roll.Recounts
import DiceNotation.Proofs.Roll.Refresh
import DiceNotation.Proofs.Roll.Replacements
import DiceNotation.Proofs.Roll.Replay
import DiceNotation.Proofs.Roll.Scores
import DiceNotation.Proofs.Roll.SelectionLaws
import DiceNotation.Proofs.Roll.Sorting
import DiceNotation.Proofs.Roll.Supported
import DiceNotation.Proofs.Roll.Tally
import DiceNotation.Proofs.Roll.Traces
import DiceNotation.Proofs.Roll.Triggers
import DiceNotation.Proofs.Roll.Values
import DiceNotation.Roll.Generator
