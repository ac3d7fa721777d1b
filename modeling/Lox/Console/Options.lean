import Lox.Text.DecimalDigit
import Lox.Text.Quoted

namespace Lox

structure Options where
  file : Option String := none
  ast : Bool := false
  rpn : Bool := false
  noColor : Bool := false

inductive Invocation
  | start (o : Options)
  | help
  | refuse (message : String)

inductive Flag
  | help | ast | rpn | noColor
  deriving DecidableEq

namespace Flag

def long : Flag → String
  | help => "--help"
  | ast => "--ast"
  | rpn => "--rpn"
  | noColor => "--no-color"

def all : List Flag := [help, ast, rpn, noColor]

def title : Flag → String
  | help => "-h/--help"
  | f => f.long

end Flag

inductive Argument
  | flag (f : Flag)
  | withText (message : String)
  | unknown
  | plain
  | divider

namespace Argument

/-- Digits and nothing else, but for a line end behind them. -/
def isDigits (cs : List Char) : Bool :=
  match cs.takeWhile Text.isDecimalDigit, cs.dropWhile Text.isDecimalDigit with
  | [], _ => false
  | _, [] => true
  | _, ['\n'] => true
  | _, _ => false

/-- Whether the text is a negative number, which is no option. The digits before a point may be
missing. -/
def isNegativeNumber : List Char → Bool
  | '-' :: cs =>
    isDigits cs || match cs.dropWhile Text.isDecimalDigit with
      | '.' :: ds => isDigits ds
      | _ => false
  | _ => false

def ignored (f : Flag) (text : List Char) : Argument :=
  withText ("argument " ++ f.title ++ ": ignored explicit argument " ++ Text.quoted (String.ofList text))

def splitEquals (cs : List Char) : List Char × Option (List Char) :=
  (cs.takeWhile (· != '='), (cs.dropWhile (· != '=')).tail?)

/-- A long option by any of its beginnings, unless several options begin so. -/
def ofLong (cs : List Char) : Except String Argument :=
  let (name, text) := splitEquals cs
  match Flag.all.filter fun f => name.isPrefixOf f.long.toList, text with
  | [], _ => .ok (if cs.contains ' ' then plain else unknown)
  | [f], none => .ok (flag f)
  | [f], some t => .ok (ignored f t)
  | fs, _ => .error ("ambiguous option: " ++ String.ofList cs ++ " could match " ++
      ", ".intercalate (fs.map Flag.long))

def ofLetters (cs : List Char) : Argument :=
  match cs.dropWhile (· == 'h') with
  | [] => flag .help
  | rest => ignored .help rest

def ofShort : List Char → Argument
  | ['='] => ignored .help []
  | '=' :: cs => ofLetters cs
  | cs => ofLetters cs

def classify (s : String) : Except String Argument :=
  match s.toList with
  | [] => .ok plain
  | ['-'] => .ok plain
  | ['-', '-'] => .ok divider
  | '-' :: '-' :: cs => ofLong ('-' :: '-' :: cs)
  | '-' :: 'h' :: cs => .ok (ofShort cs)
  | '-' :: cs => .ok (if isNegativeNumber ('-' :: cs) || cs.contains ' ' then plain else unknown)
  | _ => .ok plain

/-- Behind a divider all arguments are plain. -/
def classifyAll : List String → Except String (List (String × Argument))
  | [] => .ok []
  | s :: ss => do
    match ← classify s with
    | divider => pure ((s, divider) :: ss.map fun t => (t, plain))
    | a => pure ((s, a) :: (← classifyAll ss))

end Argument

namespace Options

def conflict (f g : Flag) : Invocation :=
  .refuse ("argument " ++ f.title ++ ": not allowed with argument " ++ g.title)

/-- Takes the arguments from left to right. The first plain one is the file and takes a divider
beside it; what has no place is refused at the end. -/
def take (o : Options) (hasFile : Bool) (extras : List String) : List (String × Argument) → Invocation
  | [] => if extras.isEmpty then .start o
      else .refuse ("unrecognized arguments: " ++ " ".intercalate extras)
  | (_, .flag .help) :: _ => .help
  | (_, .flag .ast) :: as =>
    if o.rpn then conflict .ast .rpn else take { o with ast := true } hasFile extras as
  | (_, .flag .rpn) :: as =>
    if o.ast then conflict .rpn .ast else take { o with rpn := true } hasFile extras as
  | (_, .flag .noColor) :: as => take { o with noColor := true } hasFile extras as
  | (_, .withText message) :: _ => .refuse message
  | (s, .unknown) :: as => take o hasFile (extras ++ [s]) as
  | (s, a) :: as =>
    if hasFile then take o hasFile (extras ++ [s]) as
    else match a, as with
      | .divider, (t, _) :: as => take { o with file := some t } true extras as
      | .divider, [] => take o true extras []
      | _, (_, .divider) :: as => take { o with file := some s } true extras as
      | _, as => take { o with file := some s } true extras as

def ofArguments (args : List String) : Invocation :=
  match Argument.classifyAll args with
  | .error message => .refuse message
  | .ok as => take {} false [] as

def usage : String := "usage: lox [-h] [--ast | --rpn] [--no-color] [file]\n"

def help : String :=
  usage ++ "\nTree-walking interpreter for the lox language.\n\n" ++
  "positional arguments:\n" ++
  "  file        file to interpret and run (if empty, goes to command-line mode)\n\n" ++
  "options:\n" ++
  "  -h, --help  show this help message and exit\n" ++
  "  --ast       print the parsed syntax tree instead of running\n" ++
  "  --rpn       print expressions in reverse Polish notation instead of running\n" ++
  "  --no-color  do not colour diagnostics\n"

end Options

end Lox
