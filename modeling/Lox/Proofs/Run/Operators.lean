import Lox.Proofs.Grammar.Kept
import Lox.Proofs.Run.Blocks

namespace Lox

open Run Grammar

namespace Run

variable {σ α β : Type} {P : Halt → Prop}

def only (kinds : Kind → Bool) (operator : Token) (p : Run σ α) : Run σ α :=
  if kinds operator.kind then p else stop (.noRule operator)

theorem only_of_pos {kinds : Kind → Bool} {operator : Token} (h : kinds operator.kind = true)
    (p : Run σ α) :
    only kinds operator p = p := if_pos h

/-- Where the run stops before its end, it does so for such a reason. -/
def StopsFor (P : Halt → Prop) (p : Run σ α) : Prop := ∀ s halt, (p s).1 = .error halt → P halt

theorem StopsFor.bind {p : Run σ α} {f : α → Run σ β} (hp : StopsFor P p) (hf : ∀ a, StopsFor P (f a)) :
    StopsFor P (p >>= f) := by
  intro s halt h
  rw [bind_apply] at h
  cases hr : p s with
  | mk result s' =>
    rw [hr] at h
    cases result with
    | error halt' =>
      cases h
      exact hp s halt (by rw [hr])
    | ok a => exact hf a s' halt h

theorem stopsFor_pure (a : α) : StopsFor P (pure a : Run σ α) := fun _ _ h => by cases h

theorem stopsFor_stop {halt : Halt} (h : P halt) : StopsFor P (stop halt : Run σ α) := fun _ _ he => by
  cases he
  exact h

theorem stopsFor_ofExcept {r : Except Halt α} (h : ∀ halt, r = .error halt → P halt) :
    StopsFor P (ofExcept r : Run σ α) := fun _ _ he => h _ he

theorem stopsFor_lookup {f : σ → Except RuntimeError α} (h : ∀ s e, f s = .error e → P (.error e)) :
    StopsFor P (lookup f) := by
  intro s halt he
  simp only [lookup] at he
  cases hf : f s with
  | ok a =>
    rw [hf] at he
    cases he
  | error e =>
    rw [hf] at he
    cases he
    exact h s e hf

theorem stopsFor_update {f : σ → Except RuntimeError σ} (h : ∀ s e, f s = .error e → P (.error e)) :
    StopsFor P (update f) := by
  intro s halt he
  simp only [update] at he
  cases hf : f s with
  | ok s' =>
    rw [hf] at he
    cases he
  | error e =>
    rw [hf] at he
    cases he
    exact h s e hf

end Run

/-- What a run can stop for: one of these tokens is a name that is not bound or an operator with a
wrong operand. A run that is unfinished has not come to an end. -/
inductive Halt.Arises (tokens : List Token) : Halt → Prop
  | undefined {name : Token} (h : name ∈ tokens) : Arises tokens (.error (.undefined name))
  | badOperand {operator : Token} (detail : String) (h : operator ∈ tokens) :
      Arises tokens (.error (.badOperand operator detail))
  | unfinished : Arises tokens .unfinished

section Arises

variable {tokens : List Token} {t : Token} {v w : Value} {scopes : Scopes} {e : RuntimeError}
    {halt : Halt}

theorem Halt.arises_of_read (ht : t ∈ tokens) (h : scopes.read t = .error e) :
    Arises tokens (.error e) := by
  rw [Scopes.read] at h
  split at h
  · cases h
  · cases h
    exact .undefined ht

theorem Halt.arises_of_write (ht : t ∈ tokens) (h : scopes.write t v = .error e) :
    Arises tokens (.error e) := by
  rw [Scopes.write] at h
  split at h
  · cases h
  · cases h
    exact .undefined ht

theorem applyUnary_cases (t : Token) (v : Value) :
    (∃ u, applyUnary t v = .ok u) ∨ ∃ detail, applyUnary t v = .error (.badOperand t detail) := by
  unfold applyUnary
  split
  · exact .inl ⟨_, rfl⟩
  · exact .inl ⟨_, rfl⟩
  · exact .inr ⟨_, rfl⟩

theorem Halt.arises_of_applyUnary (ht : t ∈ tokens) (h : applyUnary t v = .error halt) :
    Arises tokens halt := by
  obtain ⟨u, hu⟩ | ⟨detail, hd⟩ := applyUnary_cases t v
  · cases hu.symm.trans h
  · cases hd.symm.trans h
    exact .badOperand _ ht

theorem onNumbers?_isSome {k : Kind} (h : isBinary k = true) (he : k ≠ .equalEqual) (hb : k ≠ .bangEqual)
    (hp : k ≠ .plus) : (onNumbers? k).isSome = true := by
  revert h he hb hp
  cases k <;> decide

theorem applyBinary_cases (hk : isBinary t.kind = true) (v w : Value) :
    (∃ u, applyBinary t v w = .ok u) ∨ ∃ detail, applyBinary t v w = .error (.badOperand t detail) := by
  unfold applyBinary
  split
  case h_6 he hb hp =>
    -- what is left of the operators is in the table
    obtain ⟨f, hf⟩ := Option.isSome_iff_exists.1 (onNumbers?_isSome hk he hb hp)
    rw [hf]
    exact .inl ⟨_, rfl⟩
  case h_5 | h_7 => exact .inr ⟨_, rfl⟩
  all_goals exact .inl ⟨_, rfl⟩

theorem Halt.arises_of_applyBinary (ht : t ∈ tokens) (hk : isBinary t.kind = true)
    (h : applyBinary t v w = .error halt) : Arises tokens halt := by
  obtain ⟨u, hu⟩ | ⟨detail, hd⟩ := applyBinary_cases hk v w
  · cases hu.symm.trans h
  · cases hd.symm.trans h
    exact .badOperand _ ht

end Arises

namespace Expr

/-- The evaluation where no operator is taken for another one: each is of a kind that has a rule of
its own. -/
def evalStrictly : Expr → Run Scopes Value
  | literal v => pure v
  | name t => .lookup (Scopes.read t)
  | assign t e => do
    let v ← e.evalStrictly
    .update (Scopes.write t v)
    pure v
  | unary t e => do
    let v ← e.evalStrictly
    only isUnary t (.ofExcept (applyUnary t v))
  | binary a t b => do
    let v ← a.evalStrictly
    let w ← b.evalStrictly
    only isBinary t (.ofExcept (applyBinary t v w))
  | logical a t b => do
    let v ← a.evalStrictly
    only isLogical t (if v.isTruthy = (t.kind == .kwOr) then pure v else b.evalStrictly)
  | grouping e => e.evalStrictly

theorem evalStrictly_eq {e : Expr} (h : e.isWellShaped = true) : e.evalStrictly = e.eval := by
  induction e with
  | literal v => rfl
  | name t => rfl
  | assign t e ih =>
    simp only [isWellShaped, Bool.and_eq_true] at h
    simp only [evalStrictly, eval, ih h.2]
  | unary t e ih =>
    simp only [isWellShaped, Bool.and_eq_true] at h
    simp only [evalStrictly, eval, ih h.2, only_of_pos h.1.1]
  | binary a t b iha ihb =>
    simp only [isWellShaped, Bool.and_eq_true] at h
    simp only [evalStrictly, eval, iha h.1.2, ihb h.2, only_of_pos h.1.1.1.1]
  | logical a t b iha ihb =>
    simp only [isWellShaped, Bool.and_eq_true] at h
    simp only [evalStrictly, eval, iha h.1.2, ihb h.2, only_of_pos h.1.1.1.1]
  | grouping e ih => exact ih h

theorem eval_stopsFor {e : Expr} (h : e.isWellShaped = true) {tokens : List Token}
    (hk : ∀ t ∈ e.kept, t ∈ tokens) :
    StopsFor (Halt.Arises tokens) e.eval := by
  induction e with
  | literal v => exact stopsFor_pure v
  | name t => exact stopsFor_lookup fun _ _ => Halt.arises_of_read (hk t List.mem_cons_self)
  | assign t e ih =>
    simp only [isWellShaped, Bool.and_eq_true] at h
    obtain ⟨ht, hk⟩ := List.forall_mem_cons.1 hk
    apply (ih h.2 hk).bind
    intro v
    have hu : StopsFor (Halt.Arises tokens) (update (Scopes.write t v)) :=
      stopsFor_update fun _ _ => Halt.arises_of_write ht
    exact hu.bind fun _ => stopsFor_pure v
  | unary t e ih =>
    simp only [isWellShaped, Bool.and_eq_true] at h
    obtain ⟨ht, hk⟩ := List.forall_mem_cons.1 hk
    apply (ih h.2 hk).bind
    intro v
    exact stopsFor_ofExcept fun _ => Halt.arises_of_applyUnary ht
  | binary a t b iha ihb =>
    simp only [isWellShaped, Bool.and_eq_true] at h
    obtain ⟨ht, hk⟩ := List.forall_mem_cons.1 hk
    obtain ⟨ha, hb⟩ := List.forall_mem_append.1 hk
    refine (iha h.1.2 ha).bind fun v => (ihb h.2 hb).bind fun w => ?_
    exact stopsFor_ofExcept fun _ => Halt.arises_of_applyBinary ht h.1.1.1.1
  | logical a t b iha ihb =>
    simp only [isWellShaped, Bool.and_eq_true] at h
    obtain ⟨-, hk⟩ := List.forall_mem_cons.1 hk
    obtain ⟨ha, hb⟩ := List.forall_mem_append.1 hk
    apply (iha h.1.2 ha).bind
    intro v
    split
    · exact stopsFor_pure v
    · exact ihb h.2 hb
  | grouping e ih => exact ih h hk

end Expr

namespace Exec

variable {e : Expr} {tokens : List Token}

theorem eval_stopsFor (h : e.isWellShaped = true) (hk : ∀ t ∈ e.kept, t ∈ tokens) :
    StopsFor (Halt.Arises tokens) (eval e) := fun state => e.eval_stopsFor h hk state.scopes

theorem test_stopsFor (h : e.isWellShaped = true) (hk : ∀ t ∈ e.kept, t ∈ tokens) :
    StopsFor (Halt.Arises tokens) (test e) := (eval_stopsFor h hk).bind fun _ => stopsFor_pure _

theorem inScope_stopsFor {P : Halt → Prop} {run : Exec Unit} (h : StopsFor P run) :
    StopsFor P (inScope run) :=
  fun state => h { state with scopes := state.scopes.push }

theorem loop_stopsFor {P : Halt → Prop} {condition : Exec Bool} {body : Exec Unit} (hp : P .unfinished)
    (hc : StopsFor P condition) (hb : StopsFor P body) (rounds : Nat) :
    StopsFor P (loop condition body rounds) := by
  induction rounds with
  | zero => exact stopsFor_stop hp
  | succ rounds ih =>
    apply hc.bind
    intro b
    split
    · exact hb.bind fun _ => ih
    · exact stopsFor_pure _

end Exec

namespace Stmt

mutual

theorem isWellShaped_of_mem_expressions {s : Stmt} (hs : s.isWellShaped = true) {e : Expr}
    (he : e ∈ s.expressions) :
    e.isWellShaped = true := by
  match s with
  | expression e' | print e' =>
    rw [List.mem_singleton.1 he]
    simpa only [isWellShaped] using hs
  | declare t e' =>
    rw [List.mem_singleton.1 he]
    simp only [isWellShaped, Bool.and_eq_true] at hs
    exact hs.2
  | block ss => exact isWellShaped_of_mem_expressionsAll (by simpa only [isWellShaped] using hs) he
  | ifThen c s | whileLoop c s =>
    simp only [isWellShaped, Bool.and_eq_true] at hs
    obtain rfl | he := List.mem_cons.1 he
    · exact hs.1.1
    · exact isWellShaped_of_mem_expressions hs.2 he
  | ifElse c s t =>
    simp only [isWellShaped, Bool.and_eq_true] at hs
    obtain rfl | he := List.mem_cons.1 he
    · exact hs.1.1.1.1.1
    · obtain he | he := List.mem_append.1 he
      · exact isWellShaped_of_mem_expressions hs.1.1.2 he
      · exact isWellShaped_of_mem_expressions hs.2 he

theorem isWellShaped_of_mem_expressionsAll {ss : List Stmt} (hs : areWellShaped ss = true) {e : Expr}
    (he : e ∈ expressionsAll ss) : e.isWellShaped = true := by
  match ss with
  | [] => cases he
  | s :: ss =>
    simp only [areWellShaped, Bool.and_eq_true] at hs
    obtain he | he := List.mem_append.1 he
    · exact isWellShaped_of_mem_expressions hs.1 he
    · exact isWellShaped_of_mem_expressionsAll hs.2 he

end

variable (rounds : Nat) {tokens : List Token}

mutual

theorem exec_stopsFor {s : Stmt} (hs : s.isWellShaped = true)
    (hk : ∀ e ∈ s.expressions, ∀ t ∈ e.kept, t ∈ tokens) :
    StopsFor (Halt.Arises tokens) (exec rounds s) := by
  match s with
  | expression e =>
    apply (Exec.eval_stopsFor (by simpa only [isWellShaped] using hs) (hk e List.mem_cons_self)).bind
    intro _
    exact stopsFor_pure _
  | print e =>
    apply (Exec.eval_stopsFor (by simpa only [isWellShaped] using hs) (hk e List.mem_cons_self)).bind
    intro v
    exact fun _ _ h => by cases h
  | declare t e =>
    simp only [isWellShaped, Bool.and_eq_true] at hs
    apply (Exec.eval_stopsFor hs.2 (hk e List.mem_cons_self)).bind
    intro v
    exact fun _ _ h => by cases h
  | block ss => exact Exec.inScope_stopsFor (execAll_stopsFor (by simpa only [isWellShaped] using hs) hk)
  | ifThen c s =>
    simp only [isWellShaped, Bool.and_eq_true] at hs
    obtain ⟨hc, hk⟩ := List.forall_mem_cons.1 hk
    apply (Exec.test_stopsFor hs.1.1 hc).bind
    intro b
    split
    · exact exec_stopsFor hs.2 hk
    · exact stopsFor_pure _
  | ifElse c s t =>
    simp only [isWellShaped, Bool.and_eq_true] at hs
    obtain ⟨hc, hk⟩ := List.forall_mem_cons.1 hk
    obtain ⟨hyes, hno⟩ := List.forall_mem_append.1 hk
    apply (Exec.test_stopsFor hs.1.1.1.1.1 hc).bind
    intro b
    split
    · exact exec_stopsFor hs.1.1.2 hyes
    · exact exec_stopsFor hs.2 hno
  | whileLoop c s =>
    simp only [isWellShaped, Bool.and_eq_true] at hs
    obtain ⟨hc, hk⟩ := List.forall_mem_cons.1 hk
    exact Exec.loop_stopsFor .unfinished (Exec.test_stopsFor hs.1.1 hc) (exec_stopsFor hs.2 hk) rounds

theorem execAll_stopsFor {ss : List Stmt} (hs : areWellShaped ss = true)
    (hk : ∀ e ∈ expressionsAll ss, ∀ t ∈ e.kept, t ∈ tokens) :
    StopsFor (Halt.Arises tokens) (execAll rounds ss) := by
  match ss with
  | [] => exact stopsFor_pure _
  | s :: ss =>
    simp only [areWellShaped, Bool.and_eq_true] at hs
    obtain ⟨hk, hks⟩ := List.forall_mem_append.1 hk
    apply (exec_stopsFor hs.1 hk).bind
    intro _
    exact execAll_stopsFor hs.2 hks

end

end Stmt

/-- Also beside statements that have failed, the parser gives only statements that the evaluation is
made for: at every depth their operators, names and operands are as the grammar has them, and every
operator is applied by the rule of its own kind. Whatever is bound, a run of one ends, or stops at a
name that is not bound or at a wrong operand. -/
theorem parse_prepared {tokens : List Token} {s : Stmt} (hs : s ∈ (parse tokens).statements) :
    s.isWellShaped = true ∧ (∀ part ∈ s.parts, part.isWellShaped = true) ∧
      (∀ e ∈ s.expressions, e.eval = e.evalStrictly) ∧
      ∀ rounds state halt, (s.exec rounds state).1 = .error halt →
        halt.Arises (s.expressions.flatMap Expr.kept) := by
  have hw : s.isWellShaped = true := isWellShaped_of_mem_parse hs
  refine ⟨hw, fun part hp => Stmt.isWellShaped_of_mem_parts hw hp, fun e he => ?_, fun rounds => ?_⟩
  · exact (Expr.evalStrictly_eq (Stmt.isWellShaped_of_mem_expressions hw he)).symm
  · exact Stmt.exec_stopsFor rounds hw fun e he t ht => List.mem_flatMap.2 ⟨e, he, ht⟩

/-- Behind an error: `) ; print nil or -true;` -/
theorem parse_prepared_behind_error :
    let tokens :=
      [.rightParen, .semicolon, .kwPrint, .kwNil, .kwOr, .minus, .kwTrue, .semicolon].map bare
    let e : Expr := .logical (.literal .nil) (bare .kwOr) (.unary (bare .minus) (.literal (.bool true)))
    (parse tokens).errors.length = 1 ∧ .print e ∈ (parse tokens).statements ∧ e.eval = e.evalStrictly ∧
      ∃ halt, ((Stmt.print e).exec 0 .fresh).1 = .error halt ∧
        halt.Arises [bare .kwOr, bare .minus] := by
  intro tokens e
  have hs : .print e ∈ (parse tokens).statements := by
    have he : (parse tokens).statements = [.print e] := by rfl
    rw [he]
    exact List.mem_singleton_self _
  obtain ⟨-, -, heval, hhalt⟩ := parse_prepared hs
  exact ⟨by decide +kernel, hs, heval e (List.mem_singleton_self e), _, rfl, hhalt 0 .fresh _ rfl⟩

end Lox
