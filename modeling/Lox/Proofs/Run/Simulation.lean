import Lox.Proofs.Run.Watched
import Lox.Proofs.Grammar.Shape

namespace Lox

namespace Run

variable {σ α β : Type} {R : σ → σ → Prop}

/-- From related states the run comes to one result and to related states. -/
def Respects (R : σ → σ → Prop) (p : Run σ α) : Prop :=
  ∀ s t, R s t → (p s).1 = (p t).1 ∧ R (p s).2 (p t).2

theorem Respects.bind {p : Run σ α} {f : α → Run σ β} (hp : Respects R p) (hf : ∀ a, Respects R (f a)) :
    Respects R (p >>= f) := by
  intro s t h
  obtain ⟨hr, hs⟩ := hp s t h
  rw [bind_apply, bind_apply]
  generalize p s = x, p t = y at hr hs
  obtain ⟨result, s'⟩ := x
  obtain ⟨result', t'⟩ := y
  obtain rfl : result = result' := hr
  cases result with
  | error halt => exact ⟨rfl, hs⟩
  | ok a => exact hf a s' t' hs

theorem respects_pure (a : α) : Respects R (pure a : Run σ α) := fun _ _ h => ⟨rfl, h⟩

theorem respects_stop (halt : Halt) : Respects R (stop halt : Run σ α) := fun _ _ h => ⟨rfl, h⟩

theorem respects_ofExcept (r : Except Halt α) : Respects R (ofExcept r : Run σ α) :=
  fun _ _ h => ⟨rfl, h⟩

theorem respects_lookup {f : σ → Except RuntimeError α} (hf : ∀ s t, R s t → f s = f t) :
    Respects R (lookup f) :=
  fun s t h => ⟨by simp only [lookup, hf s t h], h⟩

theorem respects_update {f : σ → Except RuntimeError σ}
    (hf : ∀ s t, R s t → (∃ e, f s = .error e ∧ f t = .error e) ∨ ∃ s' t', f s = .ok s' ∧
      f t = .ok t' ∧ R s' t') :
    Respects R (update f) := by
  intro s t h
  simp only [update]
  obtain ⟨e, hs, ht⟩ | ⟨s', t', hs, ht, hr⟩ := hf s t h
  · rw [hs, ht]
    exact ⟨rfl, h⟩
  · rw [hs, ht]
    exact ⟨rfl, hr⟩

end Run

open Run

/-- A relation for each depth. Related chains bind certain names to the same values, and what a run
does to both of them keeps them related. At depth zero, where statements run that are no
declarations, nothing is defined. -/
structure Scopes.Simulates (names : String → Prop) (R : Nat → Scopes → Scopes → Prop) : Prop where
  get? : ∀ {k c d x}, R k c d → names x → c.get? x = d.get? x
  assign? : ∀ {k c d x} (v : Value), R k c d → names x → Option.Rel (R k) (c.assign? x v) (d.assign? x v)
  define : ∀ {k c d x} (v : Value), R (k + 1) c d → names x → R (k + 1) (c.define x v) (d.define x v)
  push : ∀ {k c d}, R k c d → R (k + 1) c.push d.push
  pop : ∀ {k c d}, R (k + 1) c d → R k c.pop d.pop

def State.Related (R : Scopes → Scopes → Prop) (s t : State) : Prop :=
  R s.scopes t.scopes ∧ s.output = t.output

variable {names : String → Prop} {R : Nat → Scopes → Scopes → Prop} {k : Nat}

namespace Scopes.Simulates

theorem read (h : Simulates names R) {c d : Scopes} {t : Token} (hr : R k c d) (ht : names t.lexeme) :
    c.read t = d.read t := by
  rw [Scopes.read, Scopes.read, h.get? hr ht]

theorem write (h : Simulates names R) {c d : Scopes} {t : Token} (v : Value) (hr : R k c d)
    (ht : names t.lexeme) :
    (∃ e, c.write t v = .error e ∧ d.write t v = .error e) ∨
      ∃ c' d', c.write t v = .ok c' ∧ d.write t v = .ok d' ∧ R k c' d' := by
  have ha := h.assign? v hr ht
  rw [Scopes.write, Scopes.write]
  generalize c.assign? t.lexeme v = c', d.assign? t.lexeme v = d' at ha
  cases ha with
  | none => exact .inl ⟨_, rfl, rfl⟩
  | some hr' => exact .inr ⟨_, _, rfl, rfl, hr'⟩

end Scopes.Simulates

theorem Expr.eval_respects (h : Scopes.Simulates names R) {e : Expr}
    (he : ∀ t ∈ e.occurrences, names t.lexeme) :
    Respects (R k) e.eval := by
  induction e with
  | literal v => exact respects_pure v
  | name t => exact respects_lookup fun _ _ hr => h.read hr (he t List.mem_cons_self)
  | assign t e ih =>
    have ht := he t (by simp [occurrences])
    refine (ih fun u hu => he u (List.mem_append_left _ hu)).bind fun v => .bind ?_ fun _ =>
      respects_pure v
    exact respects_update fun _ _ hr => h.write v hr ht
  | unary t e ih => exact (ih he).bind fun v => respects_ofExcept _
  | binary a t b iha ihb =>
    have ha := iha fun u hu => he u (List.mem_append_left _ hu)
    have hb := ihb fun u hu => he u (List.mem_append_right _ hu)
    exact ha.bind fun v => hb.bind fun w => respects_ofExcept _
  | logical a t b iha ihb =>
    refine (iha fun u hu => he u (List.mem_append_left _ hu)).bind fun v => ?_
    split
    · exact respects_pure v
    · exact ihb fun u hu => he u (List.mem_append_right _ hu)
  | grouping e ih => exact ih he

namespace Exec

open State

theorem eval_respects (h : Scopes.Simulates names R) {e : Expr}
    (he : ∀ t ∈ e.occurrences, names t.lexeme) :
    Respects (Related (R k)) (eval e) := by
  intro s t hr
  obtain ⟨hresult, hscopes⟩ := e.eval_respects h he s.scopes t.scopes hr.1
  exact ⟨hresult, hscopes, hr.2⟩

theorem test_respects (h : Scopes.Simulates names R) {e : Expr}
    (he : ∀ t ∈ e.occurrences, names t.lexeme) :
    Respects (Related (R k)) (test e) := (eval_respects h he).bind fun _ => respects_pure _

theorem emit_respects {R : Scopes → Scopes → Prop} (text : String) : Respects (Related R) (emit text) :=
  fun _ _ hr => ⟨rfl, hr.1, congrArg (· ++ text) hr.2⟩

theorem define_respects (h : Scopes.Simulates names R) {x : String} (hx : names x) (v : Value) :
    Respects (Related (R (k + 1))) (define x v) := fun _ _ hr => ⟨rfl, h.define v hr.1 hx, hr.2⟩

theorem inScope_respects (h : Scopes.Simulates names R) {run : Exec Unit}
    (hrun : Respects (Related (R (k + 1))) run) :
    Respects (Related (R k)) (inScope run) := by
  intro s t hr
  have hpush : Related (R (k + 1)) { s with scopes := s.scopes.push }
    { t with scopes := t.scopes.push } :=
    ⟨h.push hr.1, hr.2⟩
  obtain ⟨hresult, hstate⟩ := hrun _ _ hpush
  exact ⟨hresult, h.pop hstate.1, hstate.2⟩

theorem loop_respects {R : State → State → Prop} {condition : Exec Bool} {body : Exec Unit}
    (hc : Respects R condition) (hb : Respects R body) (rounds : Nat) :
    Respects R (loop condition body rounds) := by
  induction rounds with
  | zero => exact respects_stop _
  | succ rounds ih =>
    refine hc.bind fun b => ?_
    split
    · exact hb.bind fun _ => ih
    · exact respects_pure _

end Exec

namespace Stmt

mutual

def mentioned : Stmt → List String
  | expression e => e.occurrences.map Token.lexeme
  | print e => e.occurrences.map Token.lexeme
  | declare t e => t.lexeme :: e.occurrences.map Token.lexeme
  | block ss => mentionedAll ss
  | ifThen c s => c.occurrences.map Token.lexeme ++ s.mentioned
  | ifElse c s t => c.occurrences.map Token.lexeme ++ (s.mentioned ++ t.mentioned)
  | whileLoop c s => c.occurrences.map Token.lexeme ++ s.mentioned

def mentionedAll : List Stmt → List String
  | [] => []
  | s :: ss => s.mentioned ++ mentionedAll ss

end

variable (rounds : Nat)

mutual

/-- Where the statement is no declaration the outermost scope may be one that is not the same in
both runs. -/
theorem exec_respects {k : Nat} (h : Scopes.Simulates names R) {s : Stmt} (hw : s.isWellShaped = true)
    (hd : s.isDeclaration = false) (hs : ∀ x ∈ s.mentioned, names x) :
    Respects (State.Related (R k)) (exec rounds s) := by
  match s with
  | expression e =>
    have he := List.forall_mem_map.1 hs
    exact (Exec.eval_respects h he).bind fun _ => respects_pure _
  | print e =>
    have he := List.forall_mem_map.1 hs
    exact (Exec.eval_respects h he).bind fun _ => Exec.emit_respects _
  | declare t e => cases hd
  | block ss =>
    have hss : areWellShaped ss = true := by simpa only [isWellShaped] using hw
    exact Exec.inScope_respects h (execAll_respects h hss hs)
  | ifThen c s =>
    simp only [isWellShaped, Bool.and_eq_true, Bool.not_eq_true'] at hw
    obtain ⟨hc, hs⟩ := List.forall_mem_append.1 hs
    refine (Exec.test_respects h (List.forall_mem_map.1 hc)).bind fun b => ?_
    split
    · exact exec_respects h hw.2 hw.1.2 hs
    · exact respects_pure _
  | ifElse c s s' =>
    simp only [isWellShaped, Bool.and_eq_true, Bool.not_eq_true'] at hw
    obtain ⟨hc, hb⟩ := List.forall_mem_append.1 hs
    obtain ⟨hs, hs'⟩ := List.forall_mem_append.1 hb
    refine (Exec.test_respects h (List.forall_mem_map.1 hc)).bind fun b => ?_
    split
    · exact exec_respects h hw.1.1.2 hw.1.1.1.1.2 hs
    · exact exec_respects h hw.2 hw.1.2 hs'
  | whileLoop c s =>
    simp only [isWellShaped, Bool.and_eq_true, Bool.not_eq_true'] at hw
    obtain ⟨hc, hs⟩ := List.forall_mem_append.1 hs
    exact Exec.loop_respects (Exec.test_respects h (List.forall_mem_map.1 hc))
      (exec_respects h hw.2 hw.1.2 hs) rounds

theorem execAll_respects {k : Nat} (h : Scopes.Simulates names R) {ss : List Stmt}
    (hw : areWellShaped ss = true) (hs : ∀ x ∈ mentionedAll ss, names x) :
    Respects (State.Related (R (k + 1))) (execAll rounds ss) := by
  match ss with
  | [] => exact respects_pure _
  | s :: ss =>
    simp only [areWellShaped, Bool.and_eq_true] at hw
    obtain ⟨hs, hss⟩ := List.forall_mem_append.1 hs
    have hfirst : Respects (State.Related (R (k + 1))) (exec rounds s) := by
      cases hd : s.isDeclaration with
      | false => exact exec_respects h hw.1 hd hs
      | true =>
        cases s with
        | declare t e =>
          obtain ⟨ht, he⟩ := List.forall_mem_cons.1 hs
          exact (Exec.eval_respects h (List.forall_mem_map.1 he)).bind fun v =>
            Exec.define_respects h ht v
        | _ => cases hd
    exact hfirst.bind fun _ => execAll_respects h hw.2 hss

end

end Stmt

end Lox
