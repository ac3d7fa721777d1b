import Mathlib.Data.Option.Basic
import Lox.Proofs.Run.Simulation

namespace Lox

open Run

namespace Scopes

/-- The second chain has one more scope, an empty one, inside of which are `k` others. -/
inductive Padded : Nat → Scopes → Scopes → Prop
  | here {c : Scopes} : Padded 0 c (nested [] c)
  | nested {k : Nat} {c d : Scopes} (s : Scope) (h : Padded k c d) :
      Padded (k + 1) (nested s c) (nested s d)

namespace Padded

variable {k : Nat} {c d : Scopes}

theorem get?_eq (h : Padded k c d) (x : String) : c.get? x = d.get? x := by
  induction h with
  | here => rfl
  | nested s _ ih => rw [get?, get?, ih]

theorem assign?_rel (h : Padded k c d) (x : String) (v : Value) :
    Option.Rel (Padded k) (c.assign? x v) (d.assign? x v) := by
  induction h with
  | @here c =>
    have hn : (Scopes.nested [] c).assign? x v = (c.assign? x v).map (Scopes.nested []) := rfl
    rw [hn]
    cases c.assign? x v with
    | none => exact .none
    | some c' => exact .some .here
  | @nested k c d s h ih =>
    rw [assign?, assign?]
    split
    · exact .some (.nested _ h)
    · generalize c.assign? x v = c', d.assign? x v = d' at ih
      cases ih with
      | none => exact .none
      | some h' => exact .some (.nested s h')

end Padded

theorem simulates_padded : Simulates (fun _ => True) Padded where
  get? h _ := h.get?_eq _
  assign? v h _ := h.assign?_rel _ v
  define v h _ := by
    cases h with
    | nested s h => exact .nested _ h
  push h := .nested [] h
  pop h := by
    cases h with
    | nested s h => exact h

end Scopes

namespace Exec

/-- A scope in which nothing is defined may be left out. -/
theorem inScope_eq_self {run : Exec Unit} (h : Respects (State.Related (Scopes.Padded 0)) run) :
    inScope run = run := by
  funext state
  obtain ⟨hresult, hscopes, houtput⟩ := h state { state with scopes := state.scopes.push } ⟨.here, rfl⟩
  rw [inScope]
  generalize run state = x, run { state with scopes := state.scopes.push } = y at hresult hscopes houtput
  obtain ⟨result, scopes, output⟩ := x
  obtain ⟨result', scopes', output'⟩ := y
  cases hscopes
  cases hresult
  cases houtput
  rfl

end Exec

namespace Stmt

theorem exec_respects_padded {s : Stmt} (hw : s.isWellShaped = true) (hd : s.isDeclaration = false)
    (rounds k : Nat) :
    Respects (State.Related (Scopes.Padded k)) (exec rounds s) :=
  exec_respects rounds Scopes.simulates_padded hw hd fun _ _ => trivial

end Stmt

end Lox
