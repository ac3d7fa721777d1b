import Lox.Value

namespace Lox

inductive Kind
  | leftParen | rightParen | leftBrace | rightBrace
  | comma | dot | minus | plus | semicolon | slash | star
  | bang | bangEqual | equal | equalEqual | greater | greaterEqual | less | lessEqual
  | identifier | string | number
  | kwAnd | kwClass | kwElse | kwFalse | kwFun | kwFor | kwIf | kwNil
  | kwOr | kwPrint | kwReturn | kwSuper | kwThis | kwTrue | kwVar | kwWhile
  | eof
  deriving DecidableEq

namespace Kind

def name : Kind → String
  | leftParen => "LEFT_PAREN"
  | rightParen => "RIGHT_PAREN"
  | leftBrace => "LEFT_BRACE"
  | rightBrace => "RIGHT_BRACE"
  | comma => "COMMA"
  | dot => "DOT"
  | minus => "MINUS"
  | plus => "PLUS"
  | semicolon => "SEMICOLON"
  | slash => "SLASH"
  | star => "STAR"
  | bang => "BANG"
  | bangEqual => "BANG_EQUAL"
  | equal => "EQUAL"
  | equalEqual => "EQUAL_EQUAL"
  | greater => "GREATER"
  | greaterEqual => "GREATER_EQUAL"
  | less => "LESS"
  | lessEqual => "LESS_EQUAL"
  | identifier => "IDENTIFIER"
  | string => "STRING"
  | number => "NUMBER"
  | kwAnd => "AND"
  | kwClass => "CLASS"
  | kwElse => "ELSE"
  | kwFalse => "FALSE"
  | kwFun => "FUN"
  | kwFor => "FOR"
  | kwIf => "IF"
  | kwNil => "NIL"
  | kwOr => "OR"
  | kwPrint => "PRINT"
  | kwReturn => "RETURN"
  | kwSuper => "SUPER"
  | kwThis => "THIS"
  | kwTrue => "TRUE"
  | kwVar => "VAR"
  | kwWhile => "WHILE"
  | eof => "EOF"

def all : List Kind :=
  [leftParen, rightParen, leftBrace, rightBrace, comma, dot, minus, plus, semicolon, slash, star,
   bang, bangEqual, equal, equalEqual, greater, greaterEqual, less, lessEqual, identifier, string,
   number, kwAnd, kwClass, kwElse, kwFalse, kwFun, kwFor, kwIf, kwNil, kwOr, kwPrint, kwReturn,
   kwSuper, kwThis, kwTrue, kwVar, kwWhile, eof]

theorem mem_all (k : Kind) : k ∈ all := by cases k <;> decide

def ofName? (s : String) : Option Kind := all.find? fun k => k.name == s

/-- Keywords are reserved in this spelling only; every other word is an identifier. -/
def ofWord : String → Kind
  | "and" => kwAnd
  | "class" => kwClass
  | "else" => kwElse
  | "false" => kwFalse
  | "for" => kwFor
  | "fun" => kwFun
  | "if" => kwIf
  | "nil" => kwNil
  | "or" => kwOr
  | "print" => kwPrint
  | "return" => kwReturn
  | "super" => kwSuper
  | "this" => kwThis
  | "true" => kwTrue
  | "var" => kwVar
  | "while" => kwWhile
  | _ => identifier

end Kind

/-- A classified lexeme. Strings and numbers have a literal value, all others have `nil`. The line
is that on which the lexeme ends. -/
structure Token where
  kind : Kind
  lexeme : String
  literal : Value
  line : Int

namespace Token

def isEof (t : Token) : Bool := t.kind == .eof

def same (t u : Token) : Bool :=
  t.kind == u.kind && t.lexeme == u.lexeme && t.literal.same u.literal && t.line == u.line

def hint (t : Token) : String := if t.isEof then " at end" else " at '" ++ t.lexeme ++ "'"

def inspect (t : Token) : String :=
  match t.literal with
  | .nil => t.kind.name
  | v => t.kind.name ++ "(" ++ v.inspect ++ ")"

end Token

end Lox
