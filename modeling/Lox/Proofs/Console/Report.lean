import Lox.Proofs.Console.History
import Lox.Proofs.Console.Pieces
import Lox.Proofs.Run.Operators
import Lox.Proofs.Source.Places

namespace Lox

open Grammar

def Problem.label : Problem → String
  | runtime _ => "RuntimeError"
  | _ => "Error"

/-- The problem is a mistake at this place, or blames a token that ends there. -/
inductive Problem.StandsAt (cs : List Char) : Problem → Nat → Prop
  | lexical {e : LexicalError} {place : Nat} (h : e.StandsAt cs place) : StandsAt cs (.lexical e) place
  | grammatical {e : SyntaxError} {place : Nat} (h : e.token.StandsAt cs place) :
      StandsAt cs (.grammatical e) (place + e.token.lexeme.toList.length)
  | runtime {e : RuntimeError} {place : Nat} (h : e.token.StandsAt cs place) :
      StandsAt cs (.runtime e) (place + e.token.lexeme.toList.length)

theorem Problem.StandsAt.line?_eq {cs : List Char} {p : Problem} {place : Nat}
    (h : p.StandsAt cs place) :
    p.line? = some (lineOf cs place : Int) := by
  cases h with
  | lexical h => cases h <;> rfl
  | grammatical h | runtime h => exact congrArg some h.line

theorem parse_errors_inOrder (source : String) :
    InOrder (fun e => e.token.StandsAt source.toList) (parse (scan source).tokens).errors := by
  obtain ⟨ts, stop, hts, -, hstop⟩ := scan_tokens_eq_concat source
  have hblamed :
      List.Sublist ((parse (scan source).tokens).errors.map SyntaxError.token) (scan source).tokens :=
    parse_blamed_sublist ⟨stop, by simp [hts], hstop⟩
  obtain ⟨places, hp, h⟩ := (scan_tokens_inOrder source).sublist hblamed
  exact ⟨places, hp, List.forall₂_map_left_iff.1 h⟩

theorem standsAt_of_mem_problems {source : String} {p : Problem} (h : p ∈ (compile source).problems) :
    ∃ place, p.StandsAt source.toList place := by
  simp only [compile, List.mem_append, List.mem_map] at h
  obtain ⟨e, he, rfl⟩ | ⟨e, he, rfl⟩ := h
  · obtain ⟨place, hs⟩ := (scan_errors_inOrder source).exists_of_mem he
    exact ⟨_, .lexical hs⟩
  · obtain ⟨place, hs⟩ := (parse_errors_inOrder source).exists_of_mem he
    exact ⟨_, .grammatical hs⟩

namespace Reporter

def diagnostics (r : Reporter) (ps : List Problem) : String :=
  String.join (ps.map fun p => r.diagnostic p.label p ++ "\n")

def tell (r : Reporter) (ps : List Problem) : Reporter := { r with log := r.log ++ r.diagnostics ps }

@[simp]
theorem tell_nil (r : Reporter) : r.tell [] = r := by simp [tell, diagnostics]

theorem tell_cons (p : Problem) (ps : List Problem) (r : Reporter) :
    r.tell (p :: ps) = (r.write (r.diagnostic p.label p)).tell ps := by
  -- a diagnostic depends on the colour alone
  have hd : (r.write (r.diagnostic p.label p)).diagnostics ps = r.diagnostics ps := rfl
  have hcons : r.diagnostics (p :: ps) = r.diagnostic p.label p ++ "\n" ++ r.diagnostics ps := by
    rw [diagnostics, List.map_cons, String.join_cons, diagnostics]
  simp only [tell, hd, hcons]
  simp only [write, String.append_assoc]

theorem note_eq_tell {p : Problem} (hl : p.label = "Error") (r : Reporter) :
    r.note p = { r.tell [p] with hadError := true } := by
  rw [tell_cons, tell_nil, hl, note]

theorem foldl_note_cons {p : Problem} {ps : List Problem} (hl : ∀ q ∈ p :: ps, q.label = "Error")
    (r : Reporter) :
    (p :: ps).foldl note r = { r.tell (p :: ps) with hadError := true } := by
  obtain ⟨hp, hps⟩ := List.forall_mem_cons.1 hl
  rw [List.foldl_cons, note_eq_tell hp, tell_cons p ps, tell_cons p [], tell_nil]
  cases ps with
  | nil => rw [tell_nil, List.foldl_nil]
  | cons q ps =>
    rw [foldl_note_cons hps]
    rfl

end Reporter

theorem label_of_mem_problems {source : String} {p : Problem} (h : p ∈ (compile source).problems) :
    p.label = "Error" := by
  simp only [compile, List.mem_append, List.mem_map] at h
  obtain ⟨e, -, rfl⟩ | ⟨e, -, rfl⟩ := h <;> rfl

/-- The statements of a source without a problem stop for nothing but its own tokens. -/
theorem execAll_arises {source : String} (hp : (compile source).problems = []) {rounds : Nat}
    {state : State} {halt : Halt}
    (h : (Stmt.execAll rounds (compile source).statements state).1 = .error halt) :
    halt.Arises (scan source).tokens := by
  obtain ⟨-, ts, stop, hts, -, hr⟩ := reads_of_compile hp
  have hk : Covers (scan source).tokens (Stmt.expressionsAll (compile source).statements) := by
    rw [hts]
    exact hr.covers.mono (List.subset_append_left _ _)
  exact Stmt.execAll_stopsFor rounds hr.isShaped (fun e he t ht => hk e he ht) state halt h

theorem Halt.Arises.eq_error_or {tokens : List Token} {halt : Halt} (h : halt.Arises tokens) :
    (∃ e, halt = .error e ∧ e.token ∈ tokens) ∨ halt = .unfinished := by
  cases h with
  | undefined ht => exact .inl ⟨_, rfl, ht⟩
  | badOperand detail ht => exact .inl ⟨_, rfl, ht⟩
  | unfinished => exact .inr rfl

namespace Session

variable {rounds : Nat} {source : String} {s : Session}

theorem absorb_runtime (e : RuntimeError) (s : Session) : s.absorb (some (.ofHalt (.error e))) =
    ({ s with reporter := { s.reporter.tell [.runtime e] with hadRuntimeError := true } },
      if s.reporter.fatal then some (.exit (some Reporter.runtimeStatus)) else none) := by
  rw [Reporter.tell_cons, Reporter.tell_nil]
  rfl

def refuse (source : String) (s : Session) : Session :=
  { s with reporter := { s.reporter.tell (compile source).problems with hadError := true } }

theorem accept_of_refused (hp : (compile source).problems ≠ []) :
    s.accept source = (s.refuse source, none) := by
  obtain ⟨p, ps, hps⟩ := List.exists_cons_of_ne_nil hp
  have hl : ∀ q ∈ p :: ps, q.label = "Error" := fun q hq => label_of_mem_problems (hps ▸ hq)
  rw [accept_of_unfit hp, refuse, hps, Reporter.foldl_note_cons hl]

theorem write_of_fit (hp : (compile source).problems = []) (form : Stmt → Option String) :
    s.write form source =
    (s, some ("\n".intercalate ((compile source).statements.filterMap form))) := by
  rw [write, accept_of_fit hp]

theorem write_of_refused (hp : (compile source).problems ≠ []) (form : Stmt → Option String) :
    s.write form source = (s.refuse source, none) := by
  rw [write, accept_of_refused hp]

instance decidableUnfinished : (result : Except Halt Unit) → Decidable (result = .error .unfinished)
  | .ok _ => .isFalse fun h => by cases h
  | .error (.error _) => .isFalse fun h => by cases h
  | .error (.noRule _) => .isFalse fun h => by cases h
  | .error .unfinished => .isTrue rfl

def Finishes (rounds : Nat) (source : String) (s : Session) : Prop :=
  (compile source).problems = [] →
    (Stmt.execAll rounds (compile source).statements s.state).1 ≠ .error .unfinished

instance : Decidable (s.Finishes rounds source) :=
  inferInstanceAs (Decidable ((compile source).problems = [] → _ ≠ _))

def guarded (rounds : Nat) (source : String) (s : Session) : Session × Option Escape :=
  let (s, e) := s.run rounds source
  s.absorb e

theorem guarded_of_refused (hp : (compile source).problems ≠ []) :
    s.guarded rounds source = (s.refuse source, none) := by
  simp only [guarded, run_of_unfit hp, accept_of_refused hp]
  rfl

/-- All that a run of a source can come to. -/
inductive Ends (rounds : Nat) (source : String) (s : Session) : Session × Option Escape → Prop
  | refused (hp : (compile source).problems ≠ []) : Ends rounds source s (s.refuse source, none)
  | finished {state : State} (hp : (compile source).problems = [])
      (hr : Stmt.execAll rounds (compile source).statements s.state = (.ok (), state)) :
      Ends rounds source s ({ s with state }, none)
  | failed {e : RuntimeError} {state : State} (hp : (compile source).problems = [])
      (hr : Stmt.execAll rounds (compile source).statements s.state = (.error (.error e), state))
      (ht : e.token ∈ (scan source).tokens) :
      Ends rounds source s (⟨{ s.reporter.tell [.runtime e] with hadRuntimeError := true }, state⟩,
        if s.reporter.fatal then some (.exit (some Reporter.runtimeStatus)) else none)
  | unfinished {state : State} (hp : (compile source).problems = [])
      (hr : Stmt.execAll rounds (compile source).statements s.state = (.error .unfinished, state)) :
      Ends rounds source s (Session.absorb { s with state } (some (.ofHalt .unfinished)))

theorem ends_guarded (rounds : Nat) (source : String) (s : Session) :
    s.Ends rounds source (s.guarded rounds source) := by
  by_cases hp : (compile source).problems = []
  · simp only [guarded, run_of_fit hp]
    rcases hr : Stmt.execAll rounds (compile source).statements s.state with ⟨halt | _, state⟩
    · obtain ⟨e, rfl, ht⟩ | rfl := (execAll_arises hp (congrArg Prod.fst hr)).eq_error_or
      · simp only [Escape.ofResult?, absorb_runtime]
        exact .failed hp hr ht
      · exact .unfinished hp hr
    · exact .finished hp hr
  · rw [guarded_of_refused hp]
    exact .refused hp

/-- What a run of a source reports: what is wrong with the source, or else how it has failed. -/
def reported (rounds : Nat) (source : String) (s : Session) : List Problem :=
  match (compile source).problems, (Stmt.execAll rounds (compile source).statements s.state).1 with
  | [], .error (.error e) => [.runtime e]
  | ps, _ => ps

theorem guarded_log (hf : s.Finishes rounds source) : (s.guarded rounds source).1.reporter.log =
    s.reporter.log ++ s.reporter.diagnostics (s.reported rounds source) := by
  have h := ends_guarded rounds source s
  generalize s.guarded rounds source = after at h
  cases h with
  | refused hp =>
    obtain ⟨p, ps, hps⟩ := List.exists_cons_of_ne_nil hp
    simp only [reported, refuse, Reporter.tell, hps]
  | finished hp hr => simp [reported, hp, hr, Reporter.diagnostics]
  | failed hp hr => simp [reported, hp, hr, Reporter.tell]
  | unfinished hp hr => exact absurd (congrArg Prod.fst hr) (hf hp)

theorem standsAt_of_mem_reported {p : Problem} (h : p ∈ s.reported rounds source) :
    ∃ place, p.StandsAt source.toList place := by
  rw [reported] at h
  split at h
  · rename_i e hp hr
    obtain rfl := List.mem_singleton.1 h
    have ht : e.token ∈ (scan source).tokens := by
      obtain ⟨_, he, ht⟩ | hu := (execAll_arises hp hr).eq_error_or
      · cases he
        exact ht
      · cases hu
    obtain ⟨place, hs⟩ := (scan_tokens_inOrder source).exists_of_mem ht
    exact ⟨_, .runtime hs⟩
  · exact standsAt_of_mem_problems h

end Session

end Lox
