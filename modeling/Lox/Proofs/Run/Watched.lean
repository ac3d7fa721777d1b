import Lox.Run.Execute
import Lox.Proofs.Run.Chain

namespace Lox

/-- A run has come to an occurrence of a name: the target of an assignment of this value, or an
expression. -/
structure Access where
  occurrence : Nat
  name : Token
  scopes : Scopes
  value : Option Value

namespace Access

def Fails (a : Access) : Prop :=
  match a.value with
  | none => a.scopes.read a.name = .error (.undefined a.name)
  | some v => a.scopes.write a.name v = .error (.undefined a.name)

/-- The access goes to the binding that is `d` scopes outward, and there is none nearer. -/
def Reaches (a : Access) (d : Nat) : Prop :=
  (∀ s ∈ a.scopes.toList.take d, s.get? a.name.lexeme = none) ∧
    ∃ s, a.scopes.toList[d]? = some s ∧ s.get? a.name.lexeme ≠ none ∧
      match a.value with
      | none => ∃ v, s.get? a.name.lexeme = some v ∧ a.scopes.read a.name = .ok v
      | some v => ∃ after, a.scopes.write a.name v = .ok after ∧
          after.toList = a.scopes.toList.set d (s.put a.name.lexeme v)

end Access

/-- A run together with the accesses that it makes from each state. -/
structure Watched (σ α : Type) where
  run : Run σ α
  accesses : σ → List Access

namespace Watched

variable {σ α β : Type}

instance : Monad (Watched σ) where
  pure a := ⟨pure a, fun _ => []⟩
  bind w f :=
    { run := w.run >>= fun a => (f a).run
      accesses := fun s => w.accesses s ++ match w.run s with
        | (.ok a, s) => (f a).accesses s
        | (.error _, _) => [] }

def silent (p : Run σ α) : Watched σ α := ⟨p, fun _ => []⟩

def reading (occurrence : Nat) (t : Token) : Watched Scopes Value :=
  ⟨.lookup (Scopes.read t), fun scopes => [⟨occurrence, t, scopes, none⟩]⟩

def writing (occurrence : Nat) (t : Token) (v : Value) : Watched Scopes Unit :=
  ⟨.update (Scopes.write t v), fun scopes => [⟨occurrence, t, scopes, some v⟩]⟩

theorem run_pure (a : α) : (pure a : Watched σ α).run = pure a := rfl

theorem run_bind (w : Watched σ α) (f : α → Watched σ β) :
    (w >>= f).run = w.run >>= fun a => (f a).run := rfl

theorem run_ite (c : Prop) [Decidable c] (w w' : Watched σ α) :
    (if c then w else w').run = if c then w.run else w'.run := by
  split <;> rfl

theorem accesses_bind (w : Watched σ α) (f : α → Watched σ β) (s : σ) :
    (w >>= f).accesses s = w.accesses s ++ match w.run s with
      | (.ok a, s) => (f a).accesses s
      | (.error _, _) => [] := rfl

end Watched

namespace Expr

def occurrences : Expr → List Token
  | literal _ => []
  | name t => [t]
  | assign t e => e.occurrences ++ [t]
  | unary _ e => e.occurrences
  | binary a _ b => a.occurrences ++ b.occurrences
  | logical a _ b => a.occurrences ++ b.occurrences
  | grouping e => e.occurrences

def watch (start : Nat) : Expr → Watched Scopes Value
  | literal v => pure v
  | name t => .reading start t
  | assign t e => do
    let v ← e.watch start
    .writing (start + e.occurrences.length) t v
    pure v
  | unary t e => do
    let v ← e.watch start
    .silent (.ofExcept (applyUnary t v))
  | binary a t b => do
    let v ← a.watch start
    let w ← b.watch (start + a.occurrences.length)
    .silent (.ofExcept (applyBinary t v w))
  | logical a t b => do
    let v ← a.watch start
    if v.isTruthy = (t.kind == .kwOr) then pure v else b.watch (start + a.occurrences.length)
  | grouping e => e.watch start

theorem watch_run (e : Expr) (start : Nat) : (e.watch start).run = e.eval := by
  induction e generalizing start with
  | literal v => rfl
  | name t => rfl
  | assign t e ih => simp only [watch, eval, Watched.run_bind, ih, Watched.run_pure]; rfl
  | unary t e ih => simp only [watch, eval, Watched.run_bind, ih]; rfl
  | binary a t b iha ihb => simp only [watch, eval, Watched.run_bind, iha, ihb]; rfl
  | logical a t b iha ihb =>
    simp only [watch, eval, Watched.run_bind, Watched.run_ite, iha, ihb, Watched.run_pure]
  | grouping e ih => exact ih start

end Expr

namespace Watched

def eval (start : Nat) (e : Expr) : Watched State Value :=
  ⟨Exec.eval e, fun state => (e.watch start).accesses state.scopes⟩

def test (start : Nat) (e : Expr) : Watched State Bool := do
  let v ← eval start e
  pure v.isTruthy

def inScope (w : Watched State Unit) : Watched State Unit :=
  ⟨Exec.inScope w.run, fun state => w.accesses { state with scopes := state.scopes.push }⟩

def loop (condition : Watched State Bool) (body : Watched State Unit) : Nat → Watched State Unit
  | 0 => .silent (.stop .unfinished)
  | rounds + 1 => do
    if ← condition then
      body
      loop condition body rounds

theorem run_loop (condition : Watched State Bool) (body : Watched State Unit) (rounds : Nat) :
    (loop condition body rounds).run = Exec.loop condition.run body.run rounds := by
  induction rounds with
  | zero => rfl
  | succ rounds ih => simp only [loop, Exec.loop, run_bind, run_ite, ih, run_pure]

end Watched

namespace Stmt

mutual

def occurrences : Stmt → List Token
  | expression e => e.occurrences
  | print e => e.occurrences
  | declare _ e => e.occurrences
  | block ss => occurrencesAll ss
  | ifThen c s => c.occurrences ++ s.occurrences
  | ifElse c s t => c.occurrences ++ (s.occurrences ++ t.occurrences)
  | whileLoop c s => c.occurrences ++ s.occurrences

def occurrencesAll : List Stmt → List Token
  | [] => []
  | s :: ss => s.occurrences ++ occurrencesAll ss

end

variable (rounds : Nat)

mutual

def watch (start : Nat) : Stmt → Watched State Unit
  | expression e => do let _ ← .eval start e
  | print e => do
    let v ← .eval start e
    .silent (Exec.emit (v.text ++ "\n"))
  | declare t e => do
    let v ← .eval start e
    .silent (Exec.define t.lexeme v)
  | block ss => .inScope (watchAll start ss)
  | ifThen c s => do if ← .test start c then watch (start + c.occurrences.length) s
  | ifElse c s t => do
    if ← .test start c then watch (start + c.occurrences.length) s
    else watch (start + c.occurrences.length + s.occurrences.length) t
  | whileLoop c s => .loop (.test start c) (watch (start + c.occurrences.length) s) rounds

def watchAll (start : Nat) : List Stmt → Watched State Unit
  | [] => pure ()
  | s :: ss => do
    watch start s
    watchAll (start + s.occurrences.length) ss

end

mutual

theorem watch_run (start : Nat) (s : Stmt) : (watch rounds start s).run = exec rounds s := by
  match s with
  | expression e | print e | declare t e => rfl
  | block ss => simp only [watch, exec, Watched.inScope, watchAll_run]
  | ifThen c s =>
    simp only [watch, exec, Watched.run_bind, Watched.run_ite, watch_run _ s, Watched.run_pure]
    rfl
  | ifElse c s t =>
    simp only [watch, exec, Watched.run_bind, Watched.run_ite, watch_run _ s, watch_run _ t]
    rfl
  | whileLoop c s =>
    simp only [watch, exec, Watched.run_loop, watch_run _ s]
    rfl

theorem watchAll_run (start : Nat) (ss : List Stmt) :
    (watchAll rounds start ss).run = execAll rounds ss := by
  match ss with
  | [] => rfl
  | s :: ss => simp only [watchAll, execAll, Watched.run_bind, watch_run start s, watchAll_run _ ss]

end

end Stmt

namespace Watched

variable {σ α β : Type}

/-- The run ends at an undefined name exactly if it makes a failing access to it. -/
def IsHonest (w : Watched σ α) : Prop :=
  ∀ s t, (w.run s).1 = .error (.error (.undefined t)) ↔ ∃ a ∈ w.accesses s, a.name = t ∧ a.Fails

theorem isHonest_silent {p : Run σ α} (h : ∀ s t, (p s).1 ≠ .error (.error (.undefined t))) :
    (silent p).IsHonest := by
  intro s t
  simp only [silent, List.not_mem_nil, false_and, exists_false, iff_false]
  exact h s t

theorem isHonest_pure (a : α) : (pure a : Watched σ α).IsHonest :=
  isHonest_silent fun _ _ h => by cases h

theorem IsHonest.bind {w : Watched σ α} {f : α → Watched σ β} (hw : w.IsHonest)
    (hf : ∀ a, (f a).IsHonest) : (w >>= f).IsHonest := by
  intro s t
  have h := hw s
  simp only [run_bind, Run.bind_apply, accesses_bind]
  cases hr : w.run s with
  | mk result s' =>
    rw [hr] at h
    cases result with
    | error halt => simpa only [List.append_nil, Except.error.injEq] using h t
    | ok a =>
      -- a run that goes on has made no failing access yet
      have hn : ∀ b ∈ w.accesses s, ¬ b.Fails := fun b hb hfails => by
        have := (h b.name).2 ⟨b, hb, rfl, hfails⟩
        cases this
      simp only [hf a s' t, List.mem_append]
      constructor
      · rintro ⟨b, hb, hbt⟩
        exact ⟨b, .inr hb, hbt⟩
      · rintro ⟨b, hb | hb, hbt⟩
        · exact absurd hbt.2 (hn b hb)
        · exact ⟨b, hb, hbt⟩

theorem isHonest_reading (n : Nat) (t : Token) : (reading n t).IsHonest := by
  intro scopes u
  simp only [reading, Run.lookup, List.mem_singleton, exists_eq_left, Access.Fails]
  cases h : scopes.read t with
  | ok v =>
    constructor
    · intro hu
      cases hu
    · rintro ⟨_, hf⟩
      cases hf
  | error e =>
    have he : e = .undefined t := by
      rw [Scopes.read] at h
      split at h
      · cases h
      · exact (Except.error.inj h).symm
    subst he
    constructor
    · intro hu
      cases hu
      exact ⟨rfl, rfl⟩
    · rintro ⟨rfl, _⟩
      rfl

theorem isHonest_writing (n : Nat) (t : Token) (v : Value) : (writing n t v).IsHonest := by
  intro scopes u
  simp only [writing, Run.update, List.mem_singleton, exists_eq_left, Access.Fails]
  cases h : scopes.write t v with
  | ok after => simp
  | error e =>
    have he : e = .undefined t := by
      rw [Scopes.write] at h
      split at h
      · cases h
      · exact (Except.error.inj h).symm
    simp [he]

end Watched

theorem applyUnary_ne_undefined (op t : Token) (v : Value) :
    applyUnary op v ≠ .error (.error (.undefined t)) := by
  unfold applyUnary
  split <;> intro h <;> cases h

theorem applyBinary_ne_undefined (op t : Token) (v w : Value) :
    applyBinary op v w ≠ .error (.error (.undefined t)) := by
  unfold applyBinary
  split
  case h_6 => split <;> intro h <;> cases h
  all_goals
    intro h
    cases h

theorem Expr.watch_isHonest (e : Expr) (start : Nat) : (e.watch start).IsHonest := by
  induction e generalizing start with
  | literal v => exact Watched.isHonest_pure v
  | name t => exact Watched.isHonest_reading start t
  | assign t e ih =>
    exact (ih start).bind fun v => (Watched.isHonest_writing _ t v).bind fun _ => Watched.isHonest_pure v
  | unary t e ih =>
    apply (ih start).bind
    intro v
    exact Watched.isHonest_silent fun _ u => applyUnary_ne_undefined t u v
  | binary a t b iha ihb =>
    refine (iha start).bind fun v => (ihb _).bind fun w => ?_
    exact Watched.isHonest_silent fun _ u => applyBinary_ne_undefined t u v w
  | logical a t b iha ihb =>
    apply (iha start).bind
    intro v
    split
    · exact Watched.isHonest_pure v
    · exact ihb _
  | grouping e ih => exact ih start

namespace Watched

theorem eval_isHonest (start : Nat) (e : Expr) : (eval start e).IsHonest := by
  intro state t
  have h := e.watch_isHonest start state.scopes t
  rw [e.watch_run] at h
  exact h

theorem test_isHonest (start : Nat) (e : Expr) : (test start e).IsHonest :=
  (eval_isHonest start e).bind fun _ => isHonest_pure _

theorem IsHonest.inScope {w : Watched State Unit} (h : w.IsHonest) : w.inScope.IsHonest :=
  fun state t => h { state with scopes := state.scopes.push } t

theorem IsHonest.loop {condition : Watched State Bool} {body : Watched State Unit}
    (hc : condition.IsHonest) (hb : body.IsHonest) (rounds : Nat) :
    (loop condition body rounds).IsHonest := by
  induction rounds with
  | zero => exact isHonest_silent fun _ _ h => by cases h
  | succ rounds ih =>
    apply hc.bind
    intro b
    split
    · exact hb.bind fun _ => ih
    · exact isHonest_pure ()

end Watched

namespace Stmt

variable (rounds : Nat)

mutual

theorem watch_isHonest (start : Nat) (s : Stmt) : (watch rounds start s).IsHonest := by
  match s with
  | expression e =>
    apply (Watched.eval_isHonest start e).bind
    intro _
    exact Watched.isHonest_pure ()
  | print e =>
    apply (Watched.eval_isHonest start e).bind
    intro v
    exact Watched.isHonest_silent fun _ _ h => by cases h
  | declare t e =>
    apply (Watched.eval_isHonest start e).bind
    intro v
    exact Watched.isHonest_silent fun _ _ h => by cases h
  | block ss => exact (watchAll_isHonest start ss).inScope
  | ifThen c s =>
    apply (Watched.test_isHonest start c).bind
    intro b
    split
    · exact watch_isHonest _ s
    · exact Watched.isHonest_pure ()
  | ifElse c s t =>
    apply (Watched.test_isHonest start c).bind
    intro b
    split
    · exact watch_isHonest _ s
    · exact watch_isHonest _ t
  | whileLoop c s => exact (Watched.test_isHonest start c).loop (watch_isHonest _ s) rounds

theorem watchAll_isHonest (start : Nat) (ss : List Stmt) : (watchAll rounds start ss).IsHonest := by
  match ss with
  | [] => exact Watched.isHonest_pure ()
  | s :: ss =>
    apply (watch_isHonest start s).bind
    intro _
    exact watchAll_isHonest _ ss

end

end Stmt

end Lox
