import Lox.Console.Session
import Lox.Proofs.Run.Blocks

namespace Lox

inductive Step
  | run (source : String)
  | parenthesized (source : String)
  | reversed (source : String)
  | compile (source : String)
  | needsMore (source : String)
  | reset

inductive Answer
  | nothing
  | form (text : Option String)
  | program (statements : Option (List Stmt))
  | isOpen (b : Bool)

namespace Session

/-- One step. The session takes note of what leaves it and goes on, also after an exit. -/
def perform (rounds : Nat) (s : Session) : Step → Session × Answer
  | .run source =>
    let (s, e) := s.run rounds source
    ((s.absorb e).1, .nothing)
  | .parenthesized source =>
    let (s, form) := s.parenthesized source
    ((s.absorb none).1, .form form)
  | .reversed source =>
    let (s, form) := s.reversed source
    ((s.absorb none).1, .form form)
  | .compile source =>
    let (s, statements) := s.accept source
    ((s.absorb none).1, .program statements)
  | .needsMore source => ((s.absorb none).1, .isOpen (hasOpenBrace source))
  | .reset => ((s.reset.absorb none).1, .nothing)

def performAll (rounds : Nat) (s : Session) (steps : List Step) : Session :=
  steps.foldl (fun s step => (s.perform rounds step).1) s

end Session

namespace Step

def compiled? : Step → Option String
  | run source => some source
  | parenthesized source => some source
  | reversed source => some source
  | compile source => some source
  | needsMore _ => none
  | reset => none

def executed? : Step → Option (List Stmt)
  | run source => if (Lox.compile source).problems.isEmpty then
      some (Lox.compile source).statements else none
  | _ => none

/-- The state after one interpreter has executed what there is to execute in these steps, and
nothing else. -/
def effects (rounds : Nat) (steps : List Step) : State :=
  Stmt.afterAll rounds (steps.filterMap executed?) .fresh

def IsRefused (step : Step) : Prop :=
  ∃ source, step.compiled? = some source ∧ (Lox.compile source).problems ≠ []

def Fails (rounds : Nat) (before : List Step) (step : Step) : Prop :=
  ∃ program e, step.executed? = some program ∧
    (Stmt.execAll rounds program (effects rounds before)).1 = .error (.error e)

theorem isRefused_iff {step : Step} {source : String} (h : step.compiled? = some source) :
    step.IsRefused ↔ (Lox.compile source).problems ≠ [] := by
  simp [IsRefused, h]

theorem ne_reset_of_compiled? {step : Step} {source : String} (h : step.compiled? = some source) :
    step ≠ .reset := by
  rintro rfl
  cases h

theorem effects_snoc (rounds : Nat) (steps : List Step) (step : Step) :
    effects rounds (steps ++ [step]) =
    step.executed?.elim (effects rounds steps) fun program =>
      (Stmt.execAll rounds program (effects rounds steps)).2 := by
  cases h : step.executed? <;> simp [effects, Stmt.afterAll, List.filterMap_append, h, List.foldl_append]

/-- Something is true of a step since the last reset and of the steps before it. -/
def Lately (P : List Step → Step → Prop) (steps : List Step) : Prop :=
  ∃ before step after, steps = before ++ step :: after ∧ .reset ∉ after ∧ P before step

theorem not_lately_nil {P : List Step → Step → Prop} : ¬ Lately P [] := by
  rintro ⟨before, step, after, h, -⟩
  simp at h

theorem lately_snoc {P : List Step → Step → Prop} {steps : List Step} {last : Step} :
    Lately P (steps ++ [last]) ↔ P steps last ∨ last ≠ .reset ∧ Lately P steps := by
  constructor
  · rintro ⟨before, step, after, h, hr, hp⟩
    obtain rfl | ⟨after, u, rfl⟩ := List.eq_nil_or_concat after
    · obtain ⟨rfl, hl⟩ := List.append_inj' h rfl
      cases hl
      exact .inl hp
    · rw [List.concat_eq_append, ← List.cons_append, ← List.append_assoc] at h
      obtain ⟨rfl, hl⟩ := List.append_inj' h rfl
      cases hl
      simp only [List.concat_eq_append, List.mem_append, List.mem_singleton, not_or] at hr
      exact .inr ⟨fun he => hr.2 he.symm, before, step, after, rfl, hr.1, hp⟩
  · rintro (hp | ⟨hl, before, step, after, rfl, hr, hp⟩)
    · exact ⟨steps, last, [], rfl, List.not_mem_nil, hp⟩
    · refine ⟨before, step, after ++ [last], by simp, ?_, hp⟩
      simp only [List.mem_append, List.mem_singleton, not_or]
      exact ⟨hr, fun he => hl he.symm⟩

end Step

namespace Reporter

theorem foldl_note_hadError (ps : List Problem) (r : Reporter) :
    (ps.foldl note r).hadError = (r.hadError || !ps.isEmpty) := by
  induction ps generalizing r with
  | nil => simp
  | cons p ps ih => simp [ih, note]

theorem foldl_note_hadRuntimeError (ps : List Problem) (r : Reporter) :
    (ps.foldl note r).hadRuntimeError = r.hadRuntimeError := by
  induction ps generalizing r with
  | nil => rfl
  | cons p ps ih => exact ih (r.note p)

end Reporter

def Escape.ofResult? : Except Halt Unit → Option Escape
  | .ok _ => none
  | .error h => some (.ofHalt h)

namespace Reporter

theorem absorb_ofResult?_hadError (result : Except Halt Unit) (r : Reporter) :
    (r.absorb (Escape.ofResult? result)).1.hadError = r.hadError := by
  rcases result with h | _
  · cases h <;> rfl
  · rfl

theorem absorb_ofResult?_hadRuntimeError {result : Except Halt Unit} {r : Reporter} :
    (r.absorb (Escape.ofResult? result)).1.hadRuntimeError = true ↔
      (∃ e, result = .error (.error e)) ∨ r.hadRuntimeError = true := by
  rcases result with h | _
  · cases h with
    | error e => exact iff_of_true rfl (.inl ⟨e, rfl⟩)
    | noRule operator =>
      have he :
          (r.absorb (Escape.ofResult? (.error (.noRule operator)))).1.hadRuntimeError =
            r.hadRuntimeError := rfl
      simp [he]
    | unfinished =>
      have he :
          (r.absorb (Escape.ofResult? (.error .unfinished))).1.hadRuntimeError = r.hadRuntimeError := rfl
      simp [he]
  · have he : (r.absorb (Escape.ofResult? (.ok ()))).1.hadRuntimeError = r.hadRuntimeError := rfl
    simp [he]

end Reporter

namespace Session

variable {rounds : Nat} {s : Session} {source : String}

theorem absorb_none_fst (s : Session) : (s.absorb none).1 = s := rfl

theorem accept_of_fit (h : (compile source).problems = []) :
    s.accept source = (s, some (compile source).statements) := by
  simp [accept, h]

theorem accept_of_unfit (h : (compile source).problems ≠ []) :
    s.accept source =
      ({ s with reporter := (compile source).problems.foldl .note s.reporter }, none) := by
  rw [accept]
  split
  · exact absurd ‹_› h
  · rfl

theorem run_of_fit (h : (compile source).problems = []) :
    s.run rounds source =
      ({ s with state := (Stmt.execAll rounds (compile source).statements s.state).2 },
        Escape.ofResult? (Stmt.execAll rounds (compile source).statements s.state).1) := by
  simp only [run, accept_of_fit h]
  rcases Stmt.execAll rounds (compile source).statements s.state with ⟨_ | _, state⟩ <;> rfl

theorem run_of_unfit (h : (compile source).problems ≠ []) :
    s.run rounds source = ((s.accept source).1, none) := by
  rw [run, accept_of_unfit h]

theorem write_fst (form : Stmt → Option String) (source : String) (s : Session) :
    (s.write form source).1 = (s.accept source).1 := by
  rw [write]
  rcases s.accept source with ⟨s', _ | statements⟩ <;> rfl

theorem accept_state (source : String) (s : Session) : (s.accept source).1.state = s.state := by
  by_cases h : (compile source).problems = []
  · rw [accept_of_fit h]
  · rw [accept_of_unfit h]

theorem accept_hadError : (s.accept source).1.reporter.hadError = true ↔
    (compile source).problems ≠ [] ∨ s.reporter.hadError = true := by
  by_cases h : (compile source).problems = []
  · simp [accept_of_fit h, h]
  · simp [accept_of_unfit h, Reporter.foldl_note_hadError, h]

theorem accept_hadRuntimeError (source : String) (s : Session) :
    (s.accept source).1.reporter.hadRuntimeError = s.reporter.hadRuntimeError := by
  by_cases h : (compile source).problems = []
  · rw [accept_of_fit h]
  · simp [accept_of_unfit h, Reporter.foldl_note_hadRuntimeError]

/-- What a step does with a session: it executes the statements of a source, compiles one only, or
does neither. -/
inductive Performs (rounds : Nat) (s : Session) : Step → Session → Prop
  | executes {step : Step} {source : String} (hc : step.compiled? = some source)
      (he : step.executed? = some (compile source).statements) (hp : (compile source).problems = []) :
      Performs rounds s step
        (Session.absorb { s with state := (Stmt.execAll rounds (compile source).statements s.state).2 }
          (Escape.ofResult? (Stmt.execAll rounds (compile source).statements s.state).1)).1
  | compiles {step : Step} {source : String} (hc : step.compiled? = some source)
      (he : step.executed? = none) :
      Performs rounds s step (s.accept source).1
  | needsMore (source : String) : Performs rounds s (.needsMore source) s
  | reset : Performs rounds s .reset s.reset

theorem performs_perform (rounds : Nat) (s : Session) (step : Step) :
    Performs rounds s step (s.perform rounds step).1 := by
  cases step with
  | run source =>
    by_cases h : (Lox.compile source).problems = []
    · simp only [perform, run_of_fit h]
      exact .executes rfl (by simp [Step.executed?, h]) h
    · rw [perform, run_of_unfit h, absorb_none_fst]
      exact .compiles rfl (by simp [Step.executed?, h])
  | parenthesized source =>
    rw [perform, Session.parenthesized, absorb_none_fst, write_fst]
    exact .compiles rfl rfl
  | reversed source =>
    rw [perform, Session.reversed, absorb_none_fst, write_fst]
    exact .compiles rfl rfl
  | compile source => exact .compiles rfl rfl
  | needsMore source => exact .needsMore source
  | reset => exact .reset

theorem perform_state (step : Step) : (s.perform rounds step).1.state =
    (step.executed?.elim s.state fun program => (Stmt.execAll rounds program s.state).2) := by
  have h := performs_perform rounds s step
  generalize (s.perform rounds step).1 = after at h
  cases h with
  | executes _ he _ => rw [he]; rfl
  | compiles _ he => rw [he, accept_state]; rfl
  | needsMore | reset => rfl

theorem perform_hadError (step : Step) : (s.perform rounds step).1.reporter.hadError = true ↔
    step.IsRefused ∨ step ≠ .reset ∧ s.reporter.hadError = true := by
  have h := performs_perform rounds s step
  generalize (s.perform rounds step).1 = after at h
  cases h with
  | executes hc _ hp =>
    rw [Step.isRefused_iff hc]
    simp [absorb, Reporter.absorb_ofResult?_hadError, hp, Step.ne_reset_of_compiled? hc]
  | compiles hc _ =>
    rw [accept_hadError, Step.isRefused_iff hc]
    simp [Step.ne_reset_of_compiled? hc]
  | needsMore source => simp [Step.IsRefused, Step.compiled?]
  | reset => simp [Step.IsRefused, Step.compiled?, reset, Reporter.reset]

theorem perform_hadRuntimeError (step : Step) :
    (s.perform rounds step).1.reporter.hadRuntimeError = true ↔
      (∃ program e, step.executed? = some program ∧
        (Stmt.execAll rounds program s.state).1 = .error (.error e)) ∨
      step ≠ .reset ∧ s.reporter.hadRuntimeError = true := by
  have h := performs_perform rounds s step
  generalize (s.perform rounds step).1 = after at h
  cases h with
  | executes hc he _ =>
    simp [absorb, Reporter.absorb_ofResult?_hadRuntimeError, he, Step.ne_reset_of_compiled? hc]
  | compiles hc he => simp [accept_hadRuntimeError, he, Step.ne_reset_of_compiled? hc]
  | needsMore source => simp [Step.executed?]
  | reset => simp [Step.executed?, reset, Reporter.reset]

/-- The session knows what the steps so far have come to. -/
structure Knows (rounds : Nat) (steps : List Step) (s : Session) : Prop where
  state : s.state = Step.effects rounds steps
  hadError : s.reporter.hadError = true ↔ Step.Lately (fun _ => Step.IsRefused) steps
  hadRuntimeError : s.reporter.hadRuntimeError = true ↔ Step.Lately (Step.Fails rounds) steps

theorem Knows.perform {steps : List Step} (h : Knows rounds steps s) (step : Step) :
    Knows rounds (steps ++ [step]) (s.perform rounds step).1 where
  state := by
    rw [perform_state, Step.effects_snoc, h.state]
  hadError := by rw [perform_hadError, Step.lately_snoc, h.hadError]
  hadRuntimeError := by
    rw [perform_hadRuntimeError, Step.lately_snoc, h.hadRuntimeError, h.state]
    rfl

theorem Knows.performAll {before : List Step} (h : Knows rounds before s) (steps : List Step) :
    Knows rounds (before ++ steps) (s.performAll rounds steps) := by
  induction steps generalizing before s with
  | nil => rwa [List.append_nil]
  | cons step steps ih =>
    have hs := ih (h.perform step)
    rwa [List.append_assoc] at hs

theorem knows_new (rounds : Nat) (fatal color : Bool) (colored : Emphasis → String → String) :
    Knows rounds [] ⟨{ fatal, color, colored }, .fresh⟩ where
  state := rfl
  hadError := iff_of_false Bool.false_ne_true Step.not_lately_nil
  hadRuntimeError := iff_of_false Bool.false_ne_true Step.not_lately_nil

end Session

/-- After any steps on a new session, its bindings and its output are those of one interpreter that
was given only the statements of the runs whose source has no lexical and no syntax error, each up
to its first error. The exit status tells whether a source was refused since the last reset, else
whether a run has failed since. -/
theorem performAll_effects (rounds : Nat) (fatal color : Bool) (colored : Emphasis → String → String)
    (steps : List Step) :
    let s := Session.performAll rounds ⟨{ fatal, color, colored }, .fresh⟩ steps
    let refused := Step.Lately (fun _ => Step.IsRefused) steps
    let failed := Step.Lately (Step.Fails rounds) steps
    s.state = Step.effects rounds steps ∧
      (s.reporter.status = 65 ↔ refused) ∧
      (s.reporter.status = 70 ↔ ¬ refused ∧ failed) ∧
      (s.reporter.status = 0 ↔ ¬ refused ∧ ¬ failed) := by
  intro s refused failed
  have h : Session.Knows rounds steps s :=
    (Session.knows_new rounds fatal color colored).performAll steps
  refine ⟨h.state, ?_⟩
  simp only [refused, failed, ← h.hadError, ← h.hadRuntimeError, Reporter.status]
  cases s.reporter.hadError <;> cases s.reporter.hadRuntimeError <;> decide

end Lox
