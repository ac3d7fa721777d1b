import Lox.Program.Expr

namespace Lox

/-- Statements. A declaration without a value declares `nil`; there is no counting loop, for it is
made of these. -/
inductive Stmt
  | expression (e : Expr)
  | print (e : Expr)
  | declare (name : Token) (value : Expr)
  | block (body : List Stmt)
  | ifThen (condition : Expr) (yes : Stmt)
  | ifElse (condition : Expr) (yes no : Stmt)
  | whileLoop (condition : Expr) (body : Stmt)

namespace Stmt

/-- The loop with a first statement, a condition and a step. One scope around the whole loop holds
what the first statement declares, so that all rounds share it. -/
def forLoop (first : Option Stmt) (condition step : Option Expr) (body : Stmt) : Stmt :=
  let round := match step with
    | some e => block [body, expression e]
    | none => body
  let loop := whileLoop (condition.getD (.literal (.bool true))) round
  match first with
  | some s => block [s, loop]
  | none => loop

mutual

def same : Stmt → Stmt → Bool
  | expression e, expression f => e.same f
  | print e, print f => e.same f
  | declare t e, declare u f => t.same u && e.same f
  | block ss, block ts => sameAll ss ts
  | ifThen c s, ifThen d t => c.same d && s.same t
  | ifElse c s s', ifElse d t t' => c.same d && s.same t && s'.same t'
  | whileLoop c s, whileLoop d t => c.same d && s.same t
  | _, _ => false

def sameAll : List Stmt → List Stmt → Bool
  | [], [] => true
  | s :: ss, t :: ts => s.same t && sameAll ss ts
  | _, _ => false

end

mutual

def inspect : Stmt → String
  | expression e => Text.call "Expression" [e.inspect]
  | print e => Text.call "Print" [e.inspect]
  | declare t e => Text.call "Var" [t.inspect, e.inspect]
  | block ss => Text.call "Block" [Text.bracketed (inspectAll ss)]
  | ifThen c s => Text.call "If" [c.inspect, s.inspect, "None"]
  | ifElse c s t => Text.call "If" [c.inspect, s.inspect, t.inspect]
  | whileLoop c s => Text.call "While" [c.inspect, s.inspect]

def inspectAll : List Stmt → List String
  | [] => []
  | s :: ss => s.inspect :: inspectAll ss

end

mutual

def outlineAt (level : Nat) : Stmt → String
  | expression e => Text.block level "Expression" [("expression", e.outlineAt (level + 1))]
  | print e => Text.block level "Print" [("expression", e.outlineAt (level + 1))]
  | declare t e => Text.block level "Var" [("name", t.inspect), ("initializer", e.outlineAt (level + 1))]
  | block ss => Text.block level "Block" [("statements", Text.listed level (outlinesAt (level + 2) ss))]
  | ifThen c s => Text.block level "If"
      [("condition", c.outlineAt (level + 1)), ("then_branch", outlineAt (level + 1) s),
       ("else_branch", "None")]
  | ifElse c s t => Text.block level "If"
      [("condition", c.outlineAt (level + 1)), ("then_branch", outlineAt (level + 1) s),
       ("else_branch", outlineAt (level + 1) t)]
  | whileLoop c s => Text.block level "While"
      [("condition", c.outlineAt (level + 1)), ("body", outlineAt (level + 1) s)]

def outlinesAt (level : Nat) : List Stmt → List String
  | [] => []
  | s :: ss => outlineAt level s :: outlinesAt level ss

end

def outline (level : Nat) (s : Stmt) : String := Text.pad level ++ s.outlineAt level

mutual

def parenthesized : Stmt → String
  | expression e => "(; " ++ e.parenthesized ++ ")"
  | print e => "(print " ++ e.parenthesized ++ ")"
  | declare t e => "(var " ++ t.lexeme ++ " " ++ e.parenthesized ++ ")"
  | block ss => "(block" ++ spaced ss ++ ")"
  | ifThen c s => "(if " ++ c.parenthesized ++ " " ++ s.parenthesized ++ ")"
  | ifElse c s t => "(if " ++ c.parenthesized ++ " " ++ s.parenthesized ++ " " ++ t.parenthesized ++ ")"
  | whileLoop c s => "(while " ++ c.parenthesized ++ " " ++ s.parenthesized ++ ")"

def spaced : List Stmt → String
  | [] => ""
  | s :: ss => " " ++ s.parenthesized ++ spaced ss

end

/-- Only statements that stand for one expression have a reversed form. -/
def reversed? : Stmt → Option String
  | expression e => some e.reversed
  | print e => some e.reversed
  | _ => none

end Stmt

end Lox
