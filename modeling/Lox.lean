import Lox.Main
import Lox.Proofs.Grammar.RoundTrip
import Lox.Proofs.Run.Blocks
import Lox.Proofs.Source.Tiling
import Lox.Proofs.Console.History
import Lox.Proofs.Grammar.Relocation
import Lox.Proofs.Source.Seam
import Lox.Proofs.Run.Relocation
import Lox.Proofs.Console.Pieces
import Lox.Proofs.Grammar.Prompt
import Lox.Proofs.Grammar.PromptRules
import Lox.Proofs.Grammar.Blame
import Lox.Proofs.Program.Layout
import Lox.Proofs.Run.Trace
import Lox.Proofs.Console.Entry
import Lox.Proofs.Console.Unambiguous
import Lox.Proofs.Run.Operators
import Lox.Proofs.Console.Report
import Lox.Proofs.Console.Outcome
import Lox.Proofs.Console.Ready
import Lox.Proofs.Console.Multiline
import Lox.Proofs.Grammar.Prefix
import Lox.Proofs.Run.ForLoop
import Lox.Proofs.Run.Transparency
import Lox.Proofs.Run.Mentioned
import Lox.Proofs.Source.Stamps
import Lox.Proofs.Source.Spaced
import Lox.Proofs.Console.Arithmetic
import Lox.Proofs.Console.Calculator
import Lox.Proofs.Number.Printed
import Lox.Proofs.Program.Outline
