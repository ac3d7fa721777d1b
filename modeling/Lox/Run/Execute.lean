import Lox.Program.Stmt
import Lox.Run.Evaluate

namespace Lox

structure State where
  scopes : Scopes
  output : String

abbrev Exec := Run State

namespace Exec

def eval (e : Expr) : Exec Value := fun state =>
  let (result, scopes) := e.eval state.scopes
  (result, { state with scopes })

def test (e : Expr) : Exec Bool := do
  let v ← eval e
  pure v.isTruthy

def emit (text : String) : Exec Unit :=
  fun state => (.ok (), { state with output := state.output ++ text })

def define (name : String) (value : Value) : Exec Unit :=
  fun state => (.ok (), { state with scopes := state.scopes.define name value })

/-- A run in a scope of its own, which is given up also after an error. -/
def inScope (run : Exec Unit) : Exec Unit := fun state =>
  let (result, state) := run { state with scopes := state.scopes.push }
  (result, { state with scopes := state.scopes.pop })

/-- Repeats a run while a condition holds. The condition is reached so many times at most, and a run
that would need more is unfinished. -/
def loop (condition : Exec Bool) (body : Exec Unit) : Nat → Exec Unit
  | 0 => .stop .unfinished
  | rounds + 1 => do
    if ← condition then
      body
      loop condition body rounds

end Exec

namespace Stmt

variable (rounds : Nat)

mutual

def exec : Stmt → Exec Unit
  | expression e => do let _ ← Exec.eval e
  | print e => do
    let v ← Exec.eval e
    Exec.emit (v.text ++ "\n")
  | declare t e => do
    let v ← Exec.eval e
    Exec.define t.lexeme v
  | block ss => Exec.inScope (execAll ss)
  | ifThen c s => do if ← Exec.test c then exec s
  | ifElse c s t => do if ← Exec.test c then exec s else exec t
  | whileLoop c s => Exec.loop (Exec.test c) (exec s) rounds

def execAll : List Stmt → Exec Unit
  | [] => pure ()
  | s :: ss => do
    exec s
    execAll ss

end

end Stmt

end Lox
