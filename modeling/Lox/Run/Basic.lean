import Lox.Problem

namespace Lox

/-- Why a run stops before its end. -/
inductive Halt
  | error (e : RuntimeError)
  /-- No rule for a binary operator of this kind; programs that were parsed have none. -/
  | noRule (operator : Token)
  /-- A loop would come to its condition more often than the run allows. -/
  | unfinished

def Halt.badOperand (operator : Token) (detail : String) : Halt := error (.badOperand operator detail)

def Run (σ α : Type) : Type := σ → Except Halt α × σ

namespace Run

variable {σ α β : Type}

@[always_inline, inline]
def andThen (p : Run σ α) (f : α → Run σ β) : Run σ β := fun s =>
  match p s with
  | (.ok a, s) => f a s
  | (.error h, s) => (.error h, s)

instance : Monad (Run σ) where
  pure a := fun s => (.ok a, s)
  bind := andThen

def stop (h : Halt) : Run σ α := fun s => (.error h, s)

def ofExcept (r : Except Halt α) : Run σ α := fun s => (r, s)

def lookup (f : σ → Except RuntimeError α) : Run σ α := fun s => ((f s).mapError .error, s)

def update (f : σ → Except RuntimeError σ) : Run σ Unit := fun s =>
  match f s with
  | .ok s => (.ok (), s)
  | .error e => (.error (.error e), s)

theorem bind_apply (p : Run σ α) (f : α → Run σ β) (s : σ) :
    (p >>= f) s = match p s with
      | (.ok a, s) => f a s
      | (.error h, s) => (.error h, s) := rfl

end Run

end Lox
