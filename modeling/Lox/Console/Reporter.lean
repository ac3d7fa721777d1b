import Lox.Run.Basic

namespace Lox

/-- What can leave a stretch of work before its end. -/
inductive Escape
  | problem (p : Problem)
  | exit (status : Option Int)
  | interrupt
  | tooDeep
  | other (kind message : String)

def Escape.ofHalt : Halt → Escape
  | .error e => .problem (.runtime e)
  | .noRule operator => .other "NoRule" operator.kind.name
  | .unfinished => .other "Unfinished" "a loop took too many rounds"

inductive Emphasis
  | bold
  | boldRed

def Emphasis.ansi : Emphasis → String → String
  | bold, text => "\x1b[1m" ++ text ++ "\x1b[0m"
  | boldRed, text => "\x1b[1m\x1b[31m" ++ text ++ "\x1b[0m"

/-- Diagnostics, and what they come to as an exit status. A fatal reporter ends the work at the
first runtime error. -/
structure Reporter where
  fatal : Bool
  color : Bool
  colored : Emphasis → String → String := Emphasis.ansi
  hadError : Bool := false
  hadRuntimeError : Bool := false
  log : String := ""

namespace Reporter

def dataStatus : Int := 65

def noInputStatus : Int := 66

def runtimeStatus : Int := 70

variable (r : Reporter)

def emphasized (e : Emphasis) (text : String) : String := if r.color then r.colored e text else text

def write (line : String) : Reporter := { r with log := r.log ++ line ++ "\n" }

def diagnostic (label : String) (p : Problem) : String :=
  let place := match p.line? with
    | some n => r.emphasized .bold ("[line " ++ toString n ++ "] ")
    | none => ""
  place ++ r.emphasized .boldRed label ++ p.hint ++ ": " ++ p.message

def note (p : Problem) : Reporter := { r.write (r.diagnostic "Error" p) with hadError := true }

def exitIfFatal : Reporter × Option Escape :=
  (r, if r.fatal then some (.exit (some runtimeStatus)) else none)

def noteRuntime (p : Problem) : Reporter × Option Escape :=
  { r.write (r.diagnostic "RuntimeError" p) with hadRuntimeError := true }.exitIfFatal

def noteInternal (message : String) : Reporter :=
  r.write (r.emphasized .boldRed "[internal] " ++ r.emphasized .boldRed "error: " ++ message)

def breakOff (message : String) : Reporter × Option Escape :=
  { r.noteInternal message with hadRuntimeError := true }.exitIfFatal

/-- Notes what leaves a stretch of work, and what of it goes on. Problems end here; an exit passes
unnoted, and what is unknown passes noted. -/
def absorb : Option Escape → Reporter × Option Escape
  | none => (r, none)
  | some (.problem (.runtime e)) => r.noteRuntime (.runtime e)
  | some (.problem p) => (r.note p, none)
  | some .interrupt => r.breakOff "keyboard interrupt"
  | some .tooDeep => r.breakOff "maximum recursion depth exceeded (input is nested too deeply)"
  | some (.other kind message) =>
    (r.noteInternal ("unknown error: '" ++ kind ++ ": " ++ message ++ "'"), some (.other kind message))
  | some (.exit status) => (r, some (.exit status))

def reset : Reporter := { r with hadError := false, hadRuntimeError := false }

def status : Int := if r.hadError then dataStatus else if r.hadRuntimeError then runtimeStatus else 0

end Reporter

end Lox
