import Lox.Grammar.Program
import Lox.Source.Scan

namespace Lox

/-- What a source comes to. It is fit to run only if there are no problems. -/
structure Compilation where
  statements : List Stmt
  problems : List Problem

def compile (source : String) : Compilation :=
  let scanned := scan source
  let parsed := parse scanned.tokens
  ⟨parsed.statements, scanned.errors.map .lexical ++ parsed.errors.map .grammatical⟩

end Lox
