import Lox.Program.Expr
import Lox.Run.Basic
import Lox.Run.Scopes

namespace Lox

def applyUnary (operator : Token) (v : Value) : Except Halt Value :=
  match operator.kind, v with
  | .bang, v => pure (.bool !v.isTruthy)
  | _, .num x => pure (.num (-x))
  | _, _ => throw (.badOperand operator "Operand must be a number.")

def onNumbers? : Kind → Option (Float → Float → Value)
  | .minus => some fun x y => .num (x - y)
  | .star => some fun x y => .num (x * y)
  | .slash => some fun x y => .num (x / y)
  | .greater => some fun x y => .bool (y < x)
  | .greaterEqual => some fun x y => .bool (y ≤ x)
  | .less => some fun x y => .bool (x < y)
  | .lessEqual => some fun x y => .bool (x ≤ y)
  | _ => none

/-- Equality is defined on all values, sums on two numbers or two texts, everything else on two
numbers. -/
def applyBinary (operator : Token) (v w : Value) : Except Halt Value :=
  match operator.kind, v, w with
  | .equalEqual, v, w => pure (.bool (v.same w))
  | .bangEqual, v, w => pure (.bool !(v.same w))
  | .plus, .num x, .num y => pure (.num (x + y))
  | .plus, .str s, .str t => pure (.str (s ++ t))
  | .plus, _, _ => throw (.badOperand operator "Operands must be two numbers or two strings.")
  | k, .num x, .num y =>
    match onNumbers? k with
    | some f => pure (f x y)
    | none => throw (.noRule operator)
  | _, _, _ => throw (.badOperand operator "Operands must be numbers.")

/-- Operands are evaluated from left to right. The right operand of `or` is skipped after a true
left one, that of every other logical operator after a false one. -/
def Expr.eval : Expr → Run Scopes Value
  | literal v => pure v
  | name t => .lookup (Scopes.read t)
  | assign t e => do
    let v ← e.eval
    .update (Scopes.write t v)
    pure v
  | unary t e => do
    let v ← e.eval
    .ofExcept (applyUnary t v)
  | binary a t b => do
    let v ← a.eval
    let w ← b.eval
    .ofExcept (applyBinary t v w)
  | logical a t b => do
    let v ← a.eval
    if v.isTruthy = (t.kind == .kwOr) then pure v else b.eval
  | grouping e => e.eval

end Lox
