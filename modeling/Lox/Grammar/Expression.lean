import Lox.Grammar.Rule
import Lox.Program.Expr

namespace Lox.Grammar

def isUnary (k : Kind) : Bool := k == .bang || k == .minus

def isFactor (k : Kind) : Bool := k == .slash || k == .star

def isTerm (k : Kind) : Bool := k == .minus || k == .plus

def isComparison (k : Kind) : Bool :=
  k == .greater || k == .greaterEqual || k == .less || k == .lessEqual

def isEquality (k : Kind) : Bool := k == .bangEqual || k == .equalEqual

def grouping (inner : Rule Expr) : Rule Expr := do
  let e ← inner
  let _ ← Rule.expect .rightParen "Expect ')' after expression."
  pure (.grouping e)

def primary (inner : Rule Expr) : Rule Expr
  | [] => .fail .unmatched []
  | t :: ts =>
    match t.kind with
    | .kwFalse => .ok (.literal (.bool false)) ts
    | .kwTrue => .ok (.literal (.bool true)) ts
    | .kwNil => .ok (.literal .nil) ts
    | .number | .string => .ok (.literal t.literal) ts
    | .identifier => .ok (.name t) ts
    | .leftParen => grouping inner ts
    | _ => .fail .unmatched (t :: ts)

def unary (inner : Rule Expr) : Rule Expr
  | [] => primary inner []
  | t :: ts =>
    if isUnary t.kind then
      match unary inner ts with
      | .ok e rest => .ok (.unary t e) rest
      | .fail fault rest => .fail fault rest
    else primary inner (t :: ts)

variable (operand : Rule Expr) (isOperator : Kind → Bool) (combine : Expr → Token → Expr → Expr)

def chainFrom : Nat → Expr → Rule Expr
  | 0, left => pure left
  | n + 1, left => do
    match ← Rule.accept isOperator with
    | none => pure left
    | some operator =>
      let right ← operand
      chainFrom n (combine left operator right)

def chain (n : Nat) : Rule Expr := do
  let left ← operand
  chainFrom operand isOperator combine n left

section Levels

variable (n : Nat) (inner : Rule Expr)

def factor : Rule Expr := chain (unary inner) isFactor .binary n

def term : Rule Expr := chain (factor n inner) isTerm .binary n

def comparison : Rule Expr := chain (term n inner) isComparison .binary n

def equality : Rule Expr := chain (comparison n inner) isEquality .binary n

def conjunction : Rule Expr := chain (equality n inner) (· == .kwAnd) .logical n

def disjunction : Rule Expr := chain (conjunction n inner) (· == .kwOr) .logical n

end Levels

/-- Assignments associate to the right. What is no name on the left is found out only after the
right side was read. -/
def assignment : Nat → Rule Expr
  | 0 => operand
  | n + 1 => do
    let left ← operand
    match ← Rule.accept (· == .equal) with
    | none => pure left
    | some equals =>
      let right ← assignment n
      match left with
      | .name target => pure (.assign target right)
      | _ => Rule.fail (.badTarget equals)

/-- Expressions of at most `n` tokens. Of several with commas between them only the last is kept. -/
def expression : Nat → Rule Expr
  | 0 => Rule.fail .unmatched
  | n + 1 =>
    chain (assignment (disjunction (n + 1) (expression n)) (n + 1)) (· == .comma)
      (fun _ _ e => e) (n + 1)

end Lox.Grammar
