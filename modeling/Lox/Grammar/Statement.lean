import Lox.Grammar.Expression
import Lox.Program.Stmt

namespace Lox.Grammar

variable (expr : Rule Expr) (stmt : Rule Stmt)

def declaration : Rule Stmt := do
  let name ← Rule.expect .identifier "Expect variable name."
  let value ← match ← Rule.accept (· == .equal) with
    | some _ => expr
    | none => pure (.literal .nil)
  let _ ← Rule.expect .semicolon "Expect ';' after variable declaration."
  pure (.declare name value)

def printing : Rule Stmt := do
  let e ← expr
  let _ ← Rule.expect .semicolon "Expect ';' after value."
  pure (.print e)

def expressionStatement : Rule Stmt := do
  let e ← expr
  let _ ← Rule.expect .semicolon "Expect ';' after expression."
  pure (.expression e)

def conditional : Rule Stmt := do
  let _ ← Rule.expect .leftParen "Expect '(' after 'if'."
  let condition ← expr
  let _ ← Rule.expect .rightParen "Expect ')' after if condition."
  let yes ← stmt
  match ← Rule.accept (· == .kwElse) with
  | none => pure (.ifThen condition yes)
  | some _ =>
    let no ← stmt
    pure (.ifElse condition yes no)

def whileLoop : Rule Stmt := do
  let _ ← Rule.expect .leftParen "Expect '(' after 'while'."
  let condition ← expr
  let _ ← Rule.expect .rightParen "Expect ')' after condition."
  let body ← stmt
  pure (.whileLoop condition body)

def firstClause : Rule (Option Stmt) := do
  match ← Rule.accept (· == .semicolon) with
  | some _ => pure none
  | none =>
    match ← Rule.accept (· == .kwVar) with
    | some _ => some <$> declaration expr
    | none => some <$> expressionStatement expr

def forLoop : Rule Stmt := do
  let _ ← Rule.expect .leftParen "Expect '(' after 'for'."
  let first ← firstClause expr
  let condition ← Rule.unlessNext .semicolon expr
  let _ ← Rule.expect .semicolon "Expect ';' after loop condition."
  let step ← Rule.unlessNext .rightParen expr
  let _ ← Rule.expect .rightParen "Expect ')' after for clauses."
  let body ← stmt
  pure (.forLoop first condition step body)

def item : Rule Stmt
  | [] => stmt []
  | t :: ts => if t.kind = .kwVar then declaration expr ts else stmt (t :: ts)

def closing : Rule Token := Rule.expect .rightBrace "Expect '\x7d' after block."

/-- The items up to a closing brace, at most `n`, and the brace. -/
def blockBody : Nat → Rule (List Stmt)
  | 0 => (fun _ => []) <$> closing
  | n + 1 => fun ts =>
    match closing ts with
    | .ok _ rest => .ok [] rest
    | .fail fault [] => .fail fault []
    | .fail .. => (do
      let first ← item expr stmt
      let others ← blockBody n
      pure (first :: others)) ts

def statement : Nat → Rule Stmt
  | 0 => Rule.fail .unmatched
  | n + 1 => fun
    | [] => .fail .unmatched []
    | t :: ts =>
      match t.kind with
      | .kwFor => forLoop (expression n) (statement n) ts
      | .kwIf => conditional (expression n) (statement n) ts
      | .kwPrint => printing (expression n) ts
      | .kwWhile => whileLoop (expression n) (statement n) ts
      | .leftBrace => (Stmt.block <$> blockBody (expression n) (statement n) n) ts
      | _ => expressionStatement (expression (n + 1)) (t :: ts)

end Lox.Grammar
