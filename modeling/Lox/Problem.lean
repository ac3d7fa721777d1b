import Lox.Source.Token

namespace Lox

/-- Each family of errors names its causes, and its last case holds a text of any other cause. -/
inductive LexicalError
  | unexpected (line : Int) (c : Char)
  | unterminated (line : Int)
  | other (line : Option Int) (message hint : String)

inductive SyntaxError
  | unmatched (token : Token) (message : String)
  | expected (kind : Kind) (token : Token) (message : String)
  | badTarget (equals : Token)
  | other (token : Token) (message : String)

inductive RuntimeError
  | undefined (name : Token)
  | badOperand (operator : Token) (detail : String)
  | other (token : Token) (message : String)

inductive Problem
  | lexical (e : LexicalError)
  | grammatical (e : SyntaxError)
  | runtime (e : RuntimeError)
  | reservedPath (path : String)
  | other (line : Option Int) (message hint : String)

namespace SyntaxError

def token : SyntaxError → Token
  | unmatched t _ => t
  | expected _ t _ => t
  | badTarget t => t
  | other t _ => t

def message : SyntaxError → String
  | unmatched _ m => m
  | expected _ _ m => m
  | badTarget _ => "Invalid assignment target."
  | other _ m => m

def kindName : SyntaxError → String
  | unmatched .. => "UnmatchedToken"
  | expected .. => "ExpectedToken"
  | badTarget _ => "InvalidAssignment"
  | other .. => "LoxSyntaxError"

end SyntaxError

namespace RuntimeError

def token : RuntimeError → Token
  | undefined t => t
  | badOperand t _ => t
  | other t _ => t

def message : RuntimeError → String
  | undefined t => "Undefined variable '" ++ t.lexeme ++ "'."
  | badOperand _ m => m
  | other _ m => m

def kindName : RuntimeError → String
  | undefined _ => "UndefinedVariable"
  | badOperand .. => "InvalidOperand"
  | other .. => "LoxRuntimeError"

end RuntimeError

namespace LexicalError

def line? : LexicalError → Option Int
  | unexpected n _ => some n
  | unterminated n => some n
  | other n _ _ => n

def hint : LexicalError → String
  | other _ _ h => h
  | _ => ""

def message : LexicalError → String
  | unexpected _ c => "Unexpected character: " ++ c.toString
  | unterminated _ => "Unterminated string."
  | other _ m _ => m

def kindName : LexicalError → String
  | unexpected .. => "UnrecognizedSymbol"
  | unterminated _ => "UnterminatedString"
  | other .. => "LexError"

end LexicalError

namespace Problem

def line? : Problem → Option Int
  | lexical e => e.line?
  | grammatical e => some e.token.line
  | runtime e => some e.token.line
  | reservedPath _ => none
  | other n _ _ => n

def hint : Problem → String
  | lexical e => e.hint
  | grammatical e => e.token.hint
  | runtime e => e.token.hint
  | reservedPath _ => ""
  | other _ _ h => h

def message : Problem → String
  | lexical e => e.message
  | grammatical e => e.message
  | runtime e => e.message
  | reservedPath p => "'" ++ p ++ "' is a reserved filename"
  | other _ m _ => m

def kindName : Problem → String
  | lexical e => e.kindName
  | grammatical e => e.kindName
  | runtime e => e.kindName
  | reservedPath _ => "ReservedFilename"
  | other .. => "LoxException"

def same (p q : Problem) : Bool :=
  p.kindName == q.kindName && p.line? == q.line? && p.hint == q.hint && p.message == q.message

def inspect (p : Problem) : String :=
  let line := match p.line? with
    | none => "None"
    | some n => toString n
  p.kindName ++ "(line=" ++ line ++ ", where=" ++ Text.quoted p.hint ++ ", message=" ++
    Text.quoted p.message ++ ")"

end Problem

end Lox
