import Lox.Source.Token
import Lox.Text.Outline

namespace Lox

inductive Expr
  | literal (value : Value)
  | name (token : Token)
  | assign (target : Token) (value : Expr)
  | unary (operator : Token) (right : Expr)
  | binary (left : Expr) (operator : Token) (right : Expr)
  | logical (left : Expr) (operator : Token) (right : Expr)
  | grouping (inner : Expr)

namespace Expr

def same : Expr → Expr → Bool
  | literal v, literal w => v.same w
  | name t, name u => t.same u
  | assign t e, assign u f => t.same u && e.same f
  | unary t e, unary u f => t.same u && e.same f
  | binary a t b, binary c u d => a.same c && t.same u && b.same d
  | logical a t b, logical c u d => a.same c && t.same u && b.same d
  | grouping e, grouping f => e.same f
  | _, _ => false

def inspect : Expr → String
  | literal v => Text.call "Literal" [v.inspect]
  | name t => Text.call "Variable" [t.inspect]
  | assign t e => Text.call "Assign" [t.inspect, e.inspect]
  | unary t e => Text.call "Unary" [t.inspect, e.inspect]
  | binary a t b => Text.call "Binary" [a.inspect, t.inspect, b.inspect]
  | logical a t b => Text.call "Logical" [a.inspect, t.inspect, b.inspect]
  | grouping e => Text.call "Grouping" [e.inspect]

/-- The outline behind its own indentation. -/
def outlineAt (level : Nat) : Expr → String
  | literal v => Text.block level "Literal" [("value", v.inspect)]
  | name t => Text.block level "Variable" [("name", t.inspect)]
  | assign t e => Text.block level "Assign" [("name", t.inspect), ("value", e.outlineAt (level + 1))]
  | unary t e => Text.block level "Unary" [("operator", t.inspect), ("right", e.outlineAt (level + 1))]
  | binary a t b => Text.block level "Binary"
      [("left", a.outlineAt (level + 1)), ("operator", t.inspect), ("right", b.outlineAt (level + 1))]
  | logical a t b => Text.block level "Logical"
      [("left", a.outlineAt (level + 1)), ("operator", t.inspect), ("right", b.outlineAt (level + 1))]
  | grouping e => Text.block level "Grouping" [("expression", e.outlineAt (level + 1))]

def outline (level : Nat) (e : Expr) : String := Text.pad level ++ e.outlineAt level

/-- All operators before their operands and all in parentheses, so that no rule of precedence is
needed. -/
def parenthesized : Expr → String
  | literal (.str s) => "\"" ++ s ++ "\""
  | literal v => v.text
  | name t => t.lexeme
  | assign t e => "(= " ++ t.lexeme ++ " " ++ e.parenthesized ++ ")"
  | unary t e => "(" ++ t.lexeme ++ " " ++ e.parenthesized ++ ")"
  | binary a t b => "(" ++ t.lexeme ++ " " ++ a.parenthesized ++ " " ++ b.parenthesized ++ ")"
  | logical a t b => "(" ++ t.lexeme ++ " " ++ a.parenthesized ++ " " ++ b.parenthesized ++ ")"
  | grouping e => "(group " ++ e.parenthesized ++ ")"

/-- All operators behind their operands and no parentheses. Only arithmetic on number literals has
such a form; every other expression has the empty one. -/
def reversed : Expr → String
  | literal (.num x) => Number.text x
  | unary t e =>
    let right := e.reversed
    if right.isEmpty then "" else right ++ " " ++ t.lexeme
  | binary a t b =>
    let left := a.reversed
    let right := b.reversed
    if left.isEmpty || right.isEmpty then "" else left ++ " " ++ right ++ " " ++ t.lexeme
  | grouping e => e.reversed
  | _ => ""

end Expr

end Lox
