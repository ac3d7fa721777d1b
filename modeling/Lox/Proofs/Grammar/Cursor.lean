import Lox.Grammar.Program

namespace Lox.Grammar

inductive Outcome (α : Type)
  | done (value : α) (cursor : Nat)
  | failed (place : Nat) (error : SyntaxError) (cursor : Nat)
  | astray
  | unfinished

/-- A rule that moves a cursor over a list of tokens. It has gone astray where it looks in front of
the first token or behind the first end mark, and if it has no end it is unfinished however many
rounds it may take. -/
def Walk (α : Type) : Type := List Token → Nat → Outcome α

namespace Walk

variable {α : Type}

instance : Monad Walk where
  pure a := fun _ i => .done a i
  bind m f := fun tokens i => match m tokens i with
    | .done a j => f a tokens j
    | .failed place e j => .failed place e j
    | .astray => .astray
    | .unfinished => .unfinished

def unfinished : Walk α := fun _ _ => .unfinished

def endMark (tokens : List Token) : Nat := tokens.findIdx Token.isEof

def look (place : Nat) : Walk Token := fun tokens i =>
  match tokens[place]? with
  | some t => if place ≤ endMark tokens then .done t i else .astray
  | none => .astray

def position : Walk Nat := fun _ i => .done i i

def current : Walk Token := do look (← position)

def previous : Walk Token := do
  match ← position with
  | 0 => fun _ _ => .astray
  | place + 1 => look place

def step : Walk Unit := fun tokens i => if i < endMark tokens then .done () (i + 1) else .astray

def atEnd : Walk Bool := do return (← current).isEof

def advance : Walk Token := do
  if ← atEnd then
    previous
  else
    step
    previous

def check (kind : Kind) : Walk Bool := do
  if ← atEnd then return false else return (← current).kind == kind

def accept : List Kind → Walk Bool
  | [] => return false
  | kind :: kinds => do
    if ← check kind then
      let _ ← advance
      return true
    else accept kinds

def blame (place : Nat) (e : SyntaxError) : Walk α := fun _ i => .failed place e i

def expect (kind : Kind) (message : String) : Walk Token := do
  if ← check kind then advance else blame (← position) (.expected kind (← current) message)

section Expressions

variable (inner : Walk Expr)

def grouping : Walk Expr := do
  let e ← inner
  let _ ← expect .rightParen "Expect ')' after expression."
  return .grouping e

def primary : Walk Expr := do
  if ← accept [.kwFalse] then return .literal (.bool false)
  if ← accept [.kwTrue] then return .literal (.bool true)
  if ← accept [.kwNil] then return .literal .nil
  if ← accept [.number, .string] then return .literal (← previous).literal
  if ← accept [.identifier] then return .name (← previous)
  if ← accept [.leftParen] then grouping inner
  else blame (← position) (.unmatched (← current) "Expect expression.")

def unary : Nat → Walk Expr
  | 0 => unfinished
  | n + 1 => do
    if ← accept [.bang, .minus] then
      let operator ← previous
      let right ← unary n
      return .unary operator right
    else primary inner

section Chain

variable (operand : Walk Expr) (operators : List Kind) (combine : Expr → Token → Expr → Expr)

def chainFrom : Nat → Expr → Walk Expr
  | 0, _ => unfinished
  | n + 1, left => do
    if ← accept operators then
      let operator ← previous
      let right ← operand
      chainFrom n (combine left operator right)
    else return left

def chain (n : Nat) : Walk Expr := do
  let left ← operand
  chainFrom operand operators combine n left

end Chain

variable (n : Nat)

def factor : Walk Expr := chain (unary inner n) [.slash, .star] .binary n

def term : Walk Expr := chain (factor inner n) [.minus, .plus] .binary n

def comparison : Walk Expr := chain (term inner n) [.greater, .greaterEqual, .less, .lessEqual] .binary n

def equality : Walk Expr := chain (comparison inner n) [.bangEqual, .equalEqual] .binary n

def conjunction : Walk Expr := chain (equality inner n) [.kwAnd] .logical n

def disjunction : Walk Expr := chain (conjunction inner n) [.kwOr] .logical n

end Expressions

/-- The place of the equals sign is kept, for it is blamed after the right side was read. -/
def assignment (operand : Walk Expr) : Nat → Walk Expr
  | 0 => unfinished
  | n + 1 => do
    let left ← operand
    if ← accept [.equal] then
      let place ← position
      let equals ← previous
      let right ← assignment operand n
      match left with
      | .name target => return .assign target right
      | _ => blame (place - 1) (.badTarget equals)
    else return left

def expression : Nat → Walk Expr
  | 0 => unfinished
  | n + 1 =>
    chain (assignment (disjunction (expression n) (n + 1)) (n + 1)) [.comma] (fun _ _ e => e) (n + 1)

section Statements

variable (expr : Walk Expr) (stmt : Walk Stmt)

def declaration : Walk Stmt := do
  let name ← expect .identifier "Expect variable name."
  let value ← if ← accept [.equal] then expr else pure (.literal .nil)
  let _ ← expect .semicolon "Expect ';' after variable declaration."
  return .declare name value

def printing : Walk Stmt := do
  let e ← expr
  let _ ← expect .semicolon "Expect ';' after value."
  return .print e

def expressionStatement : Walk Stmt := do
  let e ← expr
  let _ ← expect .semicolon "Expect ';' after expression."
  return .expression e

def conditional : Walk Stmt := do
  let _ ← expect .leftParen "Expect '(' after 'if'."
  let condition ← expr
  let _ ← expect .rightParen "Expect ')' after if condition."
  let yes ← stmt
  if ← accept [.kwElse] then
    let no ← stmt
    return .ifElse condition yes no
  else return .ifThen condition yes

def whileLoop : Walk Stmt := do
  let _ ← expect .leftParen "Expect '(' after 'while'."
  let condition ← expr
  let _ ← expect .rightParen "Expect ')' after condition."
  let body ← stmt
  return .whileLoop condition body

def firstClause : Walk (Option Stmt) := do
  if ← accept [.semicolon] then return none
  if ← accept [.kwVar] then return some (← declaration expr)
  return some (← expressionStatement expr)

def unlessNext (kind : Kind) : Walk (Option Expr) := do
  if ← check kind then return none else return some (← expr)

def forLoop : Walk Stmt := do
  let _ ← expect .leftParen "Expect '(' after 'for'."
  let first ← firstClause expr
  let condition ← unlessNext expr .semicolon
  let _ ← expect .semicolon "Expect ';' after loop condition."
  let step ← unlessNext expr .rightParen
  let _ ← expect .rightParen "Expect ')' after for clauses."
  let body ← stmt
  return .forLoop first condition step body

def item : Walk Stmt := do
  if ← accept [.kwVar] then declaration expr else stmt

def endsBlock : Walk Bool := do
  if ← check .rightBrace then return true else atEnd

def closing : Walk (List Stmt) := do
  let _ ← expect .rightBrace "Expect '\x7d' after block."
  return []

def blockBody : Nat → Walk (List Stmt)
  | 0 => unfinished
  | n + 1 => do
    if ← endsBlock then closing
    else
      let first ← item expr stmt
      let others ← blockBody n
      return first :: others

end Statements

def statement : Nat → Walk Stmt
  | 0 => unfinished
  | n + 1 => do
    if ← accept [.kwFor] then forLoop (expression n) (statement n)
    else if ← accept [.kwIf] then conditional (expression n) (statement n)
    else if ← accept [.kwPrint] then printing (expression n)
    else if ← accept [.kwWhile] then whileLoop (expression n) (statement n)
    else if ← accept [.leftBrace] then return .block (← blockBody (expression n) (statement n) n)
    else expressionStatement (expression (n + 1))

def recoverFrom : Nat → Walk Unit
  | 0 => unfinished
  | n + 1 => do
    if ← atEnd then return ()
    if (← previous).kind = .semicolon then return ()
    if startsStatement (← current).kind then return ()
    let _ ← advance
    recoverFrom n

def recover (n : Nat) : Walk Unit := do
  let _ ← advance
  recoverFrom n

def attempt (m : Walk Stmt) : Walk (Except (Nat × SyntaxError) Stmt) := fun tokens i =>
  match m tokens i with
  | .done s j => .done (.ok s) j
  | .failed place e j => .done (.error (place, e)) j
  | .astray => .astray
  | .unfinished => .unfinished

end Walk

/-- What came of one turn of the parser, and where the cursor stood before and behind it. -/
structure Turn where
  start : Nat
  result : Except (Nat × SyntaxError) Stmt
  stop : Nat

namespace Turn

def outcome (turn : Turn) : Except SyntaxError Stmt := turn.result.mapError Prod.snd

def blamed? (turn : Turn) : Option Nat :=
  match turn.result with
  | .ok _ => none
  | .error (place, _) => some place

end Turn

namespace Walk

def turn (n : Nat) : Walk Turn := do
  let start ← position
  let result ← attempt (item (expression n) (statement n))
  match result with
  | .ok _ => return ⟨start, result, ← position⟩
  | .error _ =>
    recover n
    return ⟨start, result, ← position⟩

def turns (n : Nat) : Nat → Walk (List Turn)
  | 0 => unfinished
  | m + 1 => do
    if ← atEnd then return []
    let first ← turn n
    let others ← turns n m
    return first :: others

/-- All turns of the parser, where rules and loops may come back to themselves up to `n` times. -/
def program (n : Nat) : Walk (List Turn) := turns n n

end Walk

end Lox.Grammar
