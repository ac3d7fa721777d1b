import Lox.Proofs.Program.Relocation
import Lox.Run.Execute

namespace Lox

variable {place : Int → Int}

def Halt.relocate (place : Int → Int) : Halt → Halt
  | error e => error (e.relocate place)
  | noRule operator => noRule (operator.relocate place)
  | unfinished => unfinished

namespace Run

variable {σ α β : Type}

/-- The same run, with the tokens of its halt on other lines. -/
def relocate (place : Int → Int) (p : Run σ α) : Run σ α := fun s =>
  let (result, s) := p s
  (result.mapError (Halt.relocate place), s)

theorem relocate_pure (a : α) : (pure a : Run σ α).relocate place = pure a := rfl

theorem relocate_bind (p : Run σ α) (f : α → Run σ β) :
    (p >>= f).relocate place = p.relocate place >>= fun a => (f a).relocate place := by
  funext s
  simp only [relocate, bind_apply]
  rcases p s with ⟨_ | a, s'⟩ <;> rfl

theorem relocate_bind_pure (p : Run σ α) (f : α → β) :
    (p >>= fun a => pure (f a)).relocate place = p.relocate place >>= fun a => pure (f a) :=
  relocate_bind p _

theorem relocate_ofExcept (r : Except Halt α) :
    (ofExcept r : Run σ α).relocate place = ofExcept (r.mapError (Halt.relocate place)) := rfl

theorem relocate_lookup (f : σ → Except RuntimeError α) :
    (lookup f).relocate place = lookup fun s => (f s).mapError (RuntimeError.relocate place) := by
  funext s
  simp only [relocate, lookup]
  rcases f s with _ | _ <;> rfl

theorem relocate_update (f : σ → Except RuntimeError σ) :
    (update f).relocate place = update fun s => (f s).mapError (RuntimeError.relocate place) := by
  funext s
  simp only [relocate, update]
  rcases f s with _ | _ <;> rfl

end Run

theorem Scopes.read_relocate (t : Token) :
    read (t.relocate place) = fun scopes => (scopes.read t).mapError (RuntimeError.relocate place) := by
  funext scopes
  simp only [read, Token.relocate_lexeme]
  cases scopes.get? t.lexeme <;> rfl

theorem Scopes.write_relocate (t : Token) (v : Value) :
    write (t.relocate place) v =
      fun scopes => (scopes.write t v).mapError (RuntimeError.relocate place) := by
  funext scopes
  simp only [write, Token.relocate_lexeme]
  cases scopes.assign? t.lexeme v <;> rfl

theorem applyUnary_relocate (t : Token) (v : Value) :
    applyUnary (t.relocate place) v = (applyUnary t v).mapError (Halt.relocate place) := by
  simp only [applyUnary, Token.relocate_kind]
  split <;> rfl

theorem applyBinary_relocate (t : Token) (v w : Value) :
    applyBinary (t.relocate place) v w = (applyBinary t v w).mapError (Halt.relocate place) := by
  simp only [applyBinary, Token.relocate_kind]
  split
  case h_6 => split <;> rfl
  all_goals rfl

namespace Expr

theorem eval_relocate (e : Expr) : (e.relocate place).eval = e.eval.relocate place := by
  induction e with
  | literal v => rfl
  | name t => simp only [relocate, eval, Run.relocate_lookup, Scopes.read_relocate]
  | assign t e ih =>
    simp only [relocate, eval, Run.relocate_bind, Run.relocate_update, Run.relocate_pure,
      Scopes.write_relocate, ih]
  | unary t e ih =>
    simp only [relocate, eval, Run.relocate_bind, Run.relocate_ofExcept, applyUnary_relocate, ih]
  | binary a t b iha ihb =>
    simp only [relocate, eval, Run.relocate_bind, Run.relocate_ofExcept, applyBinary_relocate, iha, ihb]
  | logical a t b iha ihb =>
    simp only [relocate, eval, Run.relocate_bind, Token.relocate_kind, iha, ihb]
    refine congrArg (a.eval.relocate place >>= ·) (funext fun v => ?_)
    split <;> rfl
  | grouping e ih => exact ih

end Expr

namespace Exec

theorem eval_relocate (e : Expr) : eval (e.relocate place) = (eval e).relocate place := by
  funext state
  simp only [eval, e.eval_relocate]
  rfl

theorem test_relocate (e : Expr) : test (e.relocate place) = (test e).relocate place := by
  simp only [test, eval_relocate, Run.relocate_bind, Run.relocate_pure]

theorem inScope_relocate (run : Exec Unit) :
    inScope (run.relocate place) = (inScope run).relocate place := rfl

theorem loop_relocate (condition : Exec Bool) (body : Exec Unit) (rounds : Nat) :
    loop (condition.relocate place) (body.relocate place) rounds =
      (loop condition body rounds).relocate place := by
  induction rounds with
  | zero => rfl
  | succ rounds ih =>
    simp only [loop, Run.relocate_bind, ih]
    refine congrArg (condition.relocate place >>= ·) (funext fun b => ?_)
    cases b with
    | false => rfl
    | true => exact (Run.relocate_bind _ _).symm

end Exec

namespace Stmt

variable (rounds : Nat)

mutual

theorem exec_relocate : ∀ s : Stmt, (s.relocate place).exec rounds = (s.exec rounds).relocate place
  | expression e => by simp only [relocate, exec, Exec.eval_relocate, Run.relocate_bind_pure]
  | print e => by
    simp only [relocate, exec, Exec.eval_relocate, Run.relocate_bind]
    rfl
  | declare t e => by
    simp only [relocate, exec, Exec.eval_relocate, Run.relocate_bind]
    rfl
  | block ss => by simp only [relocate, exec, execAll_relocate ss, Exec.inScope_relocate]
  | ifThen c s => by
    simp only [relocate, exec, Exec.test_relocate, Run.relocate_bind, exec_relocate s]
    refine congrArg ((Exec.test c).relocate place >>= ·) (funext fun b => ?_)
    cases b <;> rfl
  | ifElse c s t => by
    simp only [relocate, exec, Exec.test_relocate, Run.relocate_bind, exec_relocate s, exec_relocate t]
    refine congrArg ((Exec.test c).relocate place >>= ·) (funext fun b => ?_)
    cases b <;> rfl
  | whileLoop c s => by
    simp only [relocate, exec, Exec.test_relocate, exec_relocate s, Exec.loop_relocate]

theorem execAll_relocate :
    ∀ ss : List Stmt, execAll rounds (relocateAll place ss) = (execAll rounds ss).relocate place
  | [] => rfl
  | s :: ss => by
    simp only [relocateAll, execAll, exec_relocate s, execAll_relocate ss, Run.relocate_bind]

end

end Stmt

end Lox
