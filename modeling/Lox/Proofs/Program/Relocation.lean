import Lox.Program.Stmt
import Lox.Problem

namespace Lox

def Token.relocate (place : Int → Int) (t : Token) : Token := { t with line := place t.line }

variable (place : Int → Int)

namespace Token

@[simp] theorem relocate_kind (t : Token) : (t.relocate place).kind = t.kind := rfl

@[simp] theorem relocate_lexeme (t : Token) : (t.relocate place).lexeme = t.lexeme := rfl

@[simp] theorem relocate_literal (t : Token) : (t.relocate place).literal = t.literal := rfl

end Token

def LexicalError.relocate : LexicalError → LexicalError
  | unexpected n c => unexpected (place n) c
  | unterminated n => unterminated (place n)
  | other n message hint => other (n.map place) message hint

def SyntaxError.relocate : SyntaxError → SyntaxError
  | unmatched t message => unmatched (t.relocate place) message
  | expected k t message => expected k (t.relocate place) message
  | badTarget t => badTarget (t.relocate place)
  | other t message => other (t.relocate place) message

def RuntimeError.relocate : RuntimeError → RuntimeError
  | undefined t => undefined (t.relocate place)
  | badOperand t detail => badOperand (t.relocate place) detail
  | other t message => other (t.relocate place) message

@[simp] theorem SyntaxError.relocate_token (e : SyntaxError) :
    (e.relocate place).token = e.token.relocate place := by
  cases e <;> rfl

def Expr.relocate : Expr → Expr
  | literal v => literal v
  | name t => name (t.relocate place)
  | assign t e => assign (t.relocate place) e.relocate
  | unary t e => unary (t.relocate place) e.relocate
  | binary a t b => binary a.relocate (t.relocate place) b.relocate
  | logical a t b => logical a.relocate (t.relocate place) b.relocate
  | grouping e => grouping e.relocate

namespace Stmt

mutual

def relocate : Stmt → Stmt
  | expression e => expression (e.relocate place)
  | print e => print (e.relocate place)
  | declare t e => declare (t.relocate place) (e.relocate place)
  | block ss => block (relocateAll ss)
  | ifThen c s => ifThen (c.relocate place) s.relocate
  | ifElse c s t => ifElse (c.relocate place) s.relocate t.relocate
  | whileLoop c s => whileLoop (c.relocate place) s.relocate

def relocateAll : List Stmt → List Stmt
  | [] => []
  | s :: ss => s.relocate :: relocateAll ss

end

theorem relocateAll_eq_map (ss : List Stmt) : relocateAll place ss = ss.map (relocate place) := by
  induction ss with
  | nil => rfl
  | cons s ss ih => rw [relocateAll, List.map_cons, ih]

theorem relocate_forLoop (first : Option Stmt) (condition step : Option Expr) (body : Stmt) :
    (forLoop first condition step body).relocate place =
      forLoop (first.map (relocate place)) (condition.map (Expr.relocate place))
        (step.map (Expr.relocate place))
        (body.relocate place) := by
  cases first <;> cases condition <;> cases step <;> rfl

end Stmt

end Lox
