import Lox.Console.Session
import Lox.Text.Blank
import Lox.Text.Lines

namespace Lox

inductive Command
  | nothing
  | ast (source : String)
  | rpn (source : String)
  | help
  | exit
  | endOfInput
  | code (line : String)

/-- A command is named by the word at the start of a line. A line that starts with a question mark
asks for help, and one that starts with an exclamation mark names no command. -/
def Command.ofLine (line : String) : Command :=
  match Text.strip line.toList with
  | [] => nothing
  | '?' :: _ => help
  | '!' :: cs => code (String.ofList ('!' :: cs))
  | cs =>
    let argument := String.ofList (Text.strip (cs.dropWhile Piece.isWordChar))
    match String.ofList (cs.takeWhile Piece.isWordChar) with
    | "ast" => ast argument
    | "rpn" => rpn argument
    | "help" => help
    | "exit" => exit
    | "EOF" => endOfInput
    | _ => code (String.ofList cs)

def Dialogue.primaryPrompt : String := "> "

def Dialogue.secondaryPrompt : String := ". "

/-- A session, the lines of it that wait for a closing brace, and the prompt for the next line. -/
structure Dialogue where
  session : Session
  pending : String := ""
  prompt : String := Dialogue.primaryPrompt

inductive Verdict
  | goOn
  | leave
  | fail (e : Escape)

def Verdict.status : Verdict → Int
  | fail _ => 1
  | _ => 0

structure Turn where
  dialogue : Dialogue
  written : String
  verdict : Verdict

namespace Dialogue

def intro : String := "Lox interpreter :: Python backend\nType 'help' for more information."

def helpText : String :=
  "Welcome to the lox interpreter!\n\n" ++
  "Lox is a small dynamically-typed scripting language. This interpreter supports \n" ++
  "numbers, strings, booleans and nil, variables (var), blocks with lexical scope, \n" ++
  "if/else, while and for loops, and print.\n\n" ++
  "Try it out by typing 'var a = 1;'. Next, try typing 'print a + 2;'. \n" ++
  "Type 'ast <source>' to see how source is parsed, 'rpn <source>' for its arithmetic in \n" ++
  "reverse Polish notation, and 'exit' to leave.\n"

/-- Displays a written form. Lines that wait for a brace go on waiting. -/
def display (d : Dialogue) : Session × Option String → Turn
  | (session, form) => ⟨{ d with session := session.reset }, Session.displayed form, .goOn⟩

def enterCode (rounds : Nat) (line : String) (d : Dialogue) : Turn :=
  let source := d.pending ++ line ++ "\n"
  if hasOpenBrace source then ⟨{ d with pending := source, prompt := secondaryPrompt }, "", .goOn⟩
  else
    let d := { d with pending := "", prompt := primaryPrompt }
    let (session, e) := d.session.run rounds source
    match session.absorb e with
    | (session, none) => ⟨{ d with session := session.reset }, "", .goOn⟩
    | (session, some e) => ⟨{ d with session }, "", .fail e⟩

def enter (rounds : Nat) (line : String) (d : Dialogue) : Turn :=
  match Command.ofLine line with
  | .nothing => ⟨d, "", .goOn⟩
  | .ast source => d.display (d.session.parenthesized source)
  | .rpn source => d.display (d.session.reversed source)
  | .help => ⟨d, helpText, .goOn⟩
  | .exit => ⟨d, "", .leave⟩
  | .endOfInput => ⟨d, "\n", .leave⟩
  | .code line => d.enterCode rounds line

structure Exchange where
  prompt : String
  written : String
  printed : String

def exchange (rounds : Nat) (line : String) (d : Dialogue) : Exchange × Dialogue × Verdict :=
  let turn := d.enter rounds line
  let (printed, session) := turn.dialogue.session.takeOutput
  (⟨d.prompt, turn.written, printed⟩, { turn.dialogue with session }, turn.verdict)

/-- Takes all lines until one ends the dialogue; the end of input is a last line that does. -/
def converse (rounds : Nat) : List String → Dialogue → List Exchange × Dialogue × Verdict
  | [], d =>
    let (x, d, verdict) := d.exchange rounds "EOF"
    ([x], d, verdict)
  | line :: lines, d =>
    match d.exchange rounds line with
    | (x, d, .goOn) =>
      let (xs, d, verdict) := converse rounds lines d
      (x :: xs, d, verdict)
    | (x, d, verdict) => ([x], d, verdict)

def entered (line : String) : String :=
  String.ofList (Text.dropEnd (fun c => c == '\r' || c == '\n') line.toList)

def inputLines (input : String) : List String :=
  (Text.lines input.toList).map fun l => entered (String.ofList l)

end Dialogue

end Lox
