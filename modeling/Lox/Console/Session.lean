import Lox.Console.Reporter
import Lox.Grammar.Compilation
import Lox.Run.Execute

namespace Lox

structure Session where
  reporter : Reporter
  state : State

namespace Session

def consolePath : String := "<stdin>"

def atConsole (reporter : Reporter) : Session := ⟨{ reporter with fatal := false }, ⟨.empty, ""⟩⟩

/-- A session for a file. The name of the console is no name of a file. -/
def onFile (reporter : Reporter) (path : String) : Except Problem Session :=
  if path = consolePath then .error (.reservedPath path) else .ok ⟨reporter, ⟨.empty, ""⟩⟩

/-- The statements of a source if it is fit to run; otherwise its problems are noted. -/
def accept (source : String) (s : Session) : Session × Option (List Stmt) :=
  let c := compile source
  match c.problems with
  | [] => (s, some c.statements)
  | ps => ({ s with reporter := ps.foldl .note s.reporter }, none)

/-- Runs a source; whatever happened before an error stays. -/
def run (rounds : Nat) (source : String) (s : Session) : Session × Option Escape :=
  match s.accept source with
  | (s, none) => (s, none)
  | (s, some statements) =>
    match Stmt.execAll rounds statements s.state with
    | (.ok _, state) => ({ s with state }, none)
    | (.error h, state) => ({ s with state }, some (.ofHalt h))

/-- Writes the statements of a source in some form instead of running them, those that have it on a
line each. -/
def write (form : Stmt → Option String) (source : String) (s : Session) : Session × Option String :=
  match s.accept source with
  | (s, none) => (s, none)
  | (s, some statements) => (s, some ("\n".intercalate (statements.filterMap form)))

def parenthesized : String → Session → Session × Option String := write fun s => some s.parenthesized

def reversed : String → Session → Session × Option String := write Stmt.reversed?

def displayed : Option String → String
  | some t => if t.isEmpty then "" else t ++ "\n"
  | none => ""

def absorb (s : Session) (e : Option Escape) : Session × Option Escape :=
  let (reporter, e) := s.reporter.absorb e
  ({ s with reporter }, e)

def reset (s : Session) : Session := { s with reporter := s.reporter.reset }

def takeOutput (s : Session) : String × Session :=
  (s.state.output, { s with state := { s.state with output := "" } })

def takeLog (s : Session) : String × Session :=
  (s.reporter.log, { s with reporter := { s.reporter with log := "" } })

end Session

end Lox
