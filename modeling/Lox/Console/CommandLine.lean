import Lox.Console.Dialogue
import Lox.Console.Options

namespace Lox

structure Completion where
  status : Int
  out : String
  err : String

namespace CommandLine

/-- More rounds than a loop can take in a lifetime. -/
def manyRounds : Nat := Nat.pow 2 62

def decode (bytes : ByteArray) : Option String :=
  (String.fromUTF8? bytes).map fun s => String.ofList (Text.unifyLineEnds s.toList)

/-- What leaves the work decides about the exit status first, then what was reported. -/
def finish (out : String) : Reporter × Option Escape → Completion
  | (r, none) => ⟨r.status, out, r.log⟩
  | (r, some (.exit status)) => ⟨status.getD 0, out, r.log⟩
  | (r, some _) => ⟨1, out, r.log⟩

def display : Session × Option String → Completion
  | (s, form) => finish (Session.displayed form) (s.reporter, none)

def unreadable (path : String) (r : Reporter) : Completion :=
  let r := r.noteInternal ("'" ++ path ++ "' could not be opened")
  finish "" (r, some (.exit (some Reporter.noInputStatus)))

section

variable (colored : Emphasis → String → String) (rounds : Nat)

def reporter (o : Options) : Reporter := { fatal := true, color := !o.noColor, colored }

def onFile (o : Options) (path : String) (bytes : Option ByteArray) : Completion :=
  match Session.onFile (reporter colored o) path, bytes.bind decode with
  | .error p, _ => finish "" ((reporter colored o).absorb (some (.problem p)))
  | .ok s, none => unreadable path s.reporter
  | .ok s, some source =>
    if o.ast then display (s.parenthesized source)
    else if o.rpn then display (s.reversed source)
    else
      let (s, e) := s.run rounds source
      finish s.state.output (s.reporter.absorb e)

def onInput (o : Options) (input : String) : Completion :=
  let d : Dialogue := { session := .atConsole (reporter colored o) }
  let (exchanges, d, verdict) := d.converse rounds (Dialogue.inputLines input)
  let out := String.join (exchanges.map fun x => x.prompt ++ x.written ++ x.printed)
  ⟨verdict.status, Dialogue.intro ++ "\n" ++ out, d.session.reporter.log⟩

end

inductive Plan
  | done (c : Completion)
  | file (o : Options) (path : String)
  | dialogue (o : Options)

def plan (args : List String) : Plan :=
  match Options.ofArguments args with
  | .help => .done ⟨0, Options.help, ""⟩
  | .refuse message => .done ⟨2, "", Options.usage ++ "lox: error: " ++ message ++ "\n"⟩
  | .start o =>
    match o.file with
    | some path => .file o path
    | none => .dialogue o

/-- From the arguments to the end, given the files that can be read and all of the input. -/
def complete (rounds : Nat) (read : String → Option ByteArray) (input : String) (args : List String)
    (colored : Emphasis → String → String := Emphasis.ansi) : Completion :=
  match plan args with
  | .done c => c
  | .file o path => onFile colored rounds o path (read path)
  | .dialogue o => onInput colored rounds o input

end CommandLine

end Lox
