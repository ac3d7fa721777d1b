import Lox.Run.Execute
import Lox.Proofs.Grammar.Kept
import Lox.Proofs.Run.Chain

namespace Lox

namespace Run

variable {σ α β γ : Type} {f : σ → γ}

/-- However the run ends, it leaves this part of the state as it was. -/
def Keeps (f : σ → γ) (p : Run σ α) : Prop := ∀ s, f (p s).2 = f s

theorem Keeps.bind {p : Run σ α} {q : α → Run σ β} (hp : Keeps f p) (hq : ∀ a, Keeps f (q a)) :
    Keeps f (p >>= q) := by
  intro s
  have h := hp s
  rw [bind_apply]
  cases hr : p s with
  | mk result s' =>
    rw [hr] at h
    cases result with
    | error _ => exact h
    | ok a => exact (hq a s').trans h

theorem keeps_pure (a : α) : Keeps f (pure a : Run σ α) := fun _ => rfl

theorem keeps_stop (h : Halt) : Keeps f (stop h : Run σ α) := fun _ => rfl

theorem keeps_ofExcept (r : Except Halt α) : Keeps f (ofExcept r : Run σ α) := fun _ => rfl

theorem keeps_lookup (g : σ → Except RuntimeError α) : Keeps f (lookup g) := fun _ => rfl

theorem keeps_update {g : σ → Except RuntimeError σ} (h : ∀ s s', g s = .ok s' → f s' = f s) :
    Keeps f (update g) := by
  intro s
  rw [update]
  cases hg : g s with
  | ok s' => exact h s s' hg
  | error _ => rfl

theorem Keeps.comp {δ : Type} {p : Run σ α} (h : Keeps f p) (g : γ → δ) : Keeps (g ∘ f) p :=
  fun s => congrArg g (h s)

end Run

open Run

theorem Scopes.declared_of_write {t : Token} {v : Value} {scopes after : Scopes}
    (h : scopes.write t v = .ok after) : after.declared = scopes.declared := by
  rw [write] at h
  cases ha : scopes.assign? t.lexeme v with
  | none => simp [ha] at h
  | some scopes' =>
    have he : scopes' = after := by simpa [ha] using h
    rw [← he]
    exact declared_of_assign? ha

def Expr.targets : Expr → List String
  | literal _ => []
  | name _ => []
  | assign t e => t.lexeme :: e.targets
  | unary _ e => e.targets
  | binary a _ b => a.targets ++ b.targets
  | logical a _ b => a.targets ++ b.targets
  | grouping e => e.targets

theorem Expr.eval_keeps_of_targets {γ : Type} {f : Scopes → γ} {e : Expr}
    (h : ∀ t : Token, t.lexeme ∈ e.targets → ∀ v s s', s.write t v = .ok s' → f s' = f s) :
    Keeps f e.eval := by
  induction e with
  | literal v => exact keeps_pure v
  | name t => exact keeps_lookup _
  | assign t e ih =>
    have he := ih fun u hu => h u (List.mem_cons_of_mem _ hu)
    refine he.bind fun v => .bind ?_ fun _ => keeps_pure v
    exact keeps_update fun s s' => h t (List.mem_cons_self ..) v s s'
  | unary t e ih =>
    apply (ih h).bind
    intro v
    exact keeps_ofExcept _
  | binary a t b iha ihb =>
    have ha := iha fun u hu => h u (List.mem_append_left _ hu)
    have hb := ihb fun u hu => h u (List.mem_append_right _ hu)
    exact ha.bind fun v => hb.bind fun w => keeps_ofExcept _
  | logical a t b iha ihb =>
    apply (iha fun u hu => h u (List.mem_append_left _ hu)).bind
    intro v
    split
    · exact keeps_pure v
    · exact ihb fun u hu => h u (List.mem_append_right _ hu)
  | grouping e ih => exact ih h

theorem Expr.eval_keeps (e : Expr) : Keeps Scopes.declared e.eval :=
  eval_keeps_of_targets fun _ _ _ _ _ => Scopes.declared_of_write

def State.declared (state : State) : Declared := state.scopes.declared

def State.outer : State → Declared := List.tail ∘ State.declared

theorem Run.Keeps.test {γ : Type} {f : State → γ} {e : Expr} (h : Keeps f (Exec.eval e)) :
    Keeps f (Exec.test e) :=
  h.bind fun _ => keeps_pure _

namespace Exec

theorem eval_keeps (e : Expr) : Keeps State.declared (eval e) := fun state => e.eval_keeps state.scopes

theorem test_keeps (e : Expr) : Keeps State.declared (test e) := (eval_keeps e).test

theorem emit_keeps (text : String) : Keeps State.declared (emit text) := fun _ => rfl

theorem define_keeps_outer (x : String) (v : Value) : Keeps State.outer (define x v) := by
  intro state
  have h : State.declared (define x v state).2 = state.declared.add x := state.scopes.declared_define x v
  simp only [State.outer, Function.comp, h, Declared.tail_add]

theorem inScope_keeps {run : Exec Unit} (h : Keeps State.outer run) :
    Keeps State.declared (inScope run) := by
  intro state
  have ho : (State.declared (run { state with scopes := state.scopes.push }).2).tail = state.declared :=
    h { state with scopes := state.scopes.push }
  have hn : (State.declared (run { state with scopes := state.scopes.push }).2).tail ≠ [] := by
    rw [ho]
    exact state.scopes.declared_ne_nil
  exact (Scopes.declared_pop hn).trans ho

theorem loop_keeps {γ : Type} {f : State → γ} {condition : Exec Bool} {body : Exec Unit}
    (hc : Keeps f condition) (hb : Keeps f body) (rounds : Nat) :
    Keeps f (loop condition body rounds) := by
  induction rounds with
  | zero => exact keeps_stop _
  | succ rounds ih =>
    apply hc.bind
    intro b
    split
    · exact hb.bind fun _ => ih
    · exact keeps_pure _

end Exec

/-- A part of the state that is seen scope by scope: a definition changes it in the innermost scope
only, and that one is given up at the end of a block. -/
structure State.Layered {δ : Type} (f : State → List δ) : Prop where
  emit : ∀ text, Keeps f (Exec.emit text)
  define : ∀ x v, Keeps (List.tail ∘ f) (Exec.define x v)
  inScope : ∀ {run : Exec Unit}, Keeps (List.tail ∘ f) run → Keeps f (Exec.inScope run)

theorem State.layered_declared : Layered declared where
  emit := Exec.emit_keeps
  define := Exec.define_keeps_outer
  inScope := Exec.inScope_keeps

namespace Stmt

/-- The names that a statement declares outside of all blocks in it. -/
def exposes : Stmt → List String
  | declare t _ => [t.lexeme]
  | ifThen _ s => s.exposes
  | ifElse _ s t => s.exposes ++ t.exposes
  | whileLoop _ s => s.exposes
  | _ => []

def exposesAll (ss : List Stmt) : List String := ss.flatMap exposes

theorem exposes_eq_nil {s : Stmt} (hw : s.isWellShaped = true) (hd : s.isDeclaration = false) :
    s.exposes = [] := by
  match s with
  | expression e | print e | block ss => rfl
  | declare t e => cases hd
  | ifThen c s | whileLoop c s =>
    simp only [isWellShaped, Bool.and_eq_true, Bool.not_eq_true'] at hw
    rw [exposes, exposes_eq_nil hw.2 hw.1.2]
  | ifElse c s t =>
    simp only [isWellShaped, Bool.and_eq_true, Bool.not_eq_true'] at hw
    rw [exposes, exposes_eq_nil hw.1.1.2 hw.1.1.1.1.2, exposes_eq_nil hw.2 hw.1.2, List.append_nil]

variable (rounds : Nat)

section Layered

variable {δ : Type} {f : State → List δ}

mutual

/-- Where no expression of a statement changes a part of the state, and no declaration outside of
its blocks changes what is seen of that part, the statement does not change it either. -/
theorem exec_keeps_of_eval {γ : Type} (hf : State.Layered f) (see : List δ → γ) {s : Stmt}
    (he : ∀ e ∈ s.expressions, Keeps f (Exec.eval e))
    (hx : ∀ x ∈ s.exposes, ∀ v, Keeps (see ∘ f) (Exec.define x v)) :
    Keeps (see ∘ f) (exec rounds s) := by
  match s with
  | expression e =>
    apply ((he e List.mem_cons_self).comp see).bind
    intro _
    exact keeps_pure _
  | print e =>
    apply ((he e List.mem_cons_self).comp see).bind
    intro v
    exact (hf.emit _).comp see
  | declare t e =>
    apply ((he e List.mem_cons_self).comp see).bind
    exact hx t.lexeme List.mem_cons_self
  | block ss =>
    -- inside of the block all but the innermost scope is seen, which its declarations do not change
    have hss : Keeps (List.tail ∘ f) (execAll rounds ss) :=
      execAll_keeps_of_eval hf List.tail he fun x _ => hf.define x
    exact (hf.inScope hss).comp see
  | ifThen c s =>
    obtain ⟨hc, hs⟩ := List.forall_mem_cons.1 he
    apply (hc.test.comp see).bind
    intro b
    split
    · exact exec_keeps_of_eval hf see hs hx
    · exact keeps_pure _
  | ifElse c s t =>
    obtain ⟨hc, hst⟩ := List.forall_mem_cons.1 he
    obtain ⟨hs, ht⟩ := List.forall_mem_append.1 hst
    obtain ⟨hxs, hxt⟩ := List.forall_mem_append.1 hx
    apply (hc.test.comp see).bind
    intro b
    split
    · exact exec_keeps_of_eval hf see hs hxs
    · exact exec_keeps_of_eval hf see ht hxt
  | whileLoop c s =>
    obtain ⟨hc, hs⟩ := List.forall_mem_cons.1 he
    exact Exec.loop_keeps (hc.test.comp see) (exec_keeps_of_eval hf see hs hx) rounds

theorem execAll_keeps_of_eval {γ : Type} (hf : State.Layered f) (see : List δ → γ) {ss : List Stmt}
    (he : ∀ e ∈ expressionsAll ss, Keeps f (Exec.eval e))
    (hx : ∀ x ∈ exposesAll ss, ∀ v, Keeps (see ∘ f) (Exec.define x v)) :
    Keeps (see ∘ f) (execAll rounds ss) := by
  match ss with
  | [] => exact keeps_pure _
  | s :: ss =>
    obtain ⟨hs, hss⟩ := List.forall_mem_append.1 he
    obtain ⟨hxs, hxss⟩ := List.forall_mem_append.1 hx
    apply (exec_keeps_of_eval hf see hs hxs).bind
    intro _
    exact execAll_keeps_of_eval hf see hss hxss

end

end Layered

theorem exec_keeps {s : Stmt} (hw : s.isWellShaped = true) (hd : s.isDeclaration = false) :
    Keeps State.declared (exec rounds s) := by
  have hx : ∀ x ∈ s.exposes, ∀ v, Keeps State.declared (Exec.define x v) := by
    rw [exposes_eq_nil hw hd]
    exact List.forall_mem_nil _
  exact exec_keeps_of_eval rounds State.layered_declared id (fun e _ => Exec.eval_keeps e) hx

def extend (declared : Declared) : Stmt → Declared
  | declare t _ => declared.add t.lexeme
  | _ => declared

theorem extend_of_not_declaration {s : Stmt} (h : s.isDeclaration = false) (declared : Declared) :
    s.extend declared = declared := by
  cases s with
  | declare t e => cases h
  | _ => rfl

theorem declared_of_exec {s : Stmt} (hw : s.isWellShaped = true) {state after : State} {u : Unit}
    (h : exec rounds s state = (.ok u, after)) : after.declared = s.extend state.declared := by
  cases hd : s.isDeclaration with
  | false =>
    have hk := exec_keeps rounds hw hd state
    rw [extend_of_not_declaration hd, ← hk, h]
  | true =>
    cases s with
    | declare t e =>
      have hk := Exec.eval_keeps e state
      simp only [exec, bind_apply] at h
      cases hr : Exec.eval e state with
      | mk result state' =>
        rw [hr] at h hk
        cases result with
        | error _ => simp at h
        | ok v =>
          have ha : after = (Exec.define t.lexeme v state').2 := by simp [h]
          rw [ha, extend, ← hk]
          exact state'.scopes.declared_define t.lexeme v
    | _ => cases hd

end Stmt

end Lox
