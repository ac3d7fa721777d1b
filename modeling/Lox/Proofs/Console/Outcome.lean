import Lox.Console.CommandLine
import Lox.Proofs.Console.Report

namespace Lox.CommandLine

variable {rounds : Nat} {o : Options} {source : String} {colored : Emphasis → String → String}

/-- The text of a file that can be read. It is UTF-8, and the name of the console is the name of no
such file. -/
def text? (read : String → Option ByteArray) (path : String) : Option String :=
  if path = Session.consolePath then none else (read path).bind decode

def form? (o : Options) : Option (Stmt → Option String) :=
  if o.ast then some fun s => some s.parenthesized else if o.rpn then some Stmt.reversed? else none

/-- What a session comes to that has displayed a program, or run it to the first runtime error. -/
def completion (rounds : Nat) (form : Option (Stmt → Option String)) (source : String) (s : Session) :
    Completion :=
  match form with
  | some form => display (s.write form source)
  | none =>
    let after := s.guarded rounds source
    finish after.1.state.output (after.1.reporter, after.2)

theorem log_append (colored : Emphasis → String → String) (o : Options) (t : String) :
    (reporter colored o).log ++ t = t := String.empty_append

theorem onFile_of_text {read : String → Option ByteArray} {path : String}
    (h : text? read path = some source) :
    onFile colored rounds o path (read path) =
      completion rounds (form? o) source ⟨reporter colored o, .fresh⟩ := by
  by_cases hpath : path = Session.consolePath
  · rw [text?, if_pos hpath] at h
    cases h
  · rw [text?, if_neg hpath] at h
    have hfresh : (⟨.empty, ""⟩ : State) = .fresh := rfl
    simp only [onFile, Session.onFile, if_neg hpath, h, hfresh, form?]
    split_ifs
    · simp only [completion, Session.parenthesized]
    · simp only [completion, Session.reversed]
    · simp only [completion, Session.guarded, Session.absorb]

theorem onFile_of_no_text {read : String → Option ByteArray} {path : String}
    (h : text? read path = none) :
    onFile colored rounds o path (read path) = if path = Session.consolePath
      then ⟨65, "", (reporter colored o).diagnostics [.reservedPath path]⟩
      else unreadable path (reporter colored o) := by
  by_cases hpath : path = Session.consolePath
  · have hn : (reporter colored o).note (.reservedPath path) = _ :=
      Reporter.note_eq_tell rfl (reporter colored o)
    simp only [onFile, Session.onFile, if_pos hpath, Reporter.absorb, hn, finish, Reporter.tell,
      log_append]
    rfl
  · rw [text?, if_neg hpath] at h
    simp only [onFile, Session.onFile, if_neg hpath, h]

def ended? (colored : Emphasis → String → String) (o : Options) :
    Except Halt Unit × State → Option Completion
  | (.ok _, state) => some ⟨0, state.output, ""⟩
  | (.error (.error e), state) => some ⟨70, state.output, (reporter colored o).diagnostics [.runtime e]⟩
  | (.error _, _) => none

/-- What comes of a file with this text. One diagnostic is written for each error, the lexical ones
first, and each kind in the order of the source. -/
structure Outcome (colored : Emphasis → String → String) (rounds : Nat) (o : Options) (source : String)
    (c : Completion) : Prop where
  lexical : InOrder (LexicalError.StandsAt source.toList) (scan source).errors
  grammatical : InOrder (fun e => e.token.StandsAt source.toList) (parse (scan source).tokens).errors
  refused : (scan source).errors ≠ [] ∨ (parse (scan source).tokens).errors ≠ [] →
    c = ⟨65, "", (reporter colored o).diagnostics
      ((scan source).errors.map .lexical ++ (parse (scan source).tokens).errors.map .grammatical)⟩
  displayed : (compile source).problems = [] → ∀ form, form? o = some form →
    c = ⟨0, Session.displayed (some ("\n".intercalate ((compile source).statements.filterMap form))), ""⟩
  ran : (compile source).problems = [] → form? o = none →
    (Stmt.execAll rounds (compile source).statements .fresh).1 ≠ .error .unfinished →
      some c = ended? colored o (Stmt.execAll rounds (compile source).statements .fresh)

theorem completion_of_refused (hp : (compile source).problems ≠ [])
    (form : Option (Stmt → Option String)) :
    completion rounds form source ⟨reporter colored o, .fresh⟩ =
      ⟨65, "", (reporter colored o).diagnostics (compile source).problems⟩ := by
  cases form with
  | some form =>
    rw [completion, Session.write_of_refused hp]
    simp only [display, finish, Session.refuse, Reporter.tell, log_append]
    rfl
  | none =>
    simp only [completion, Session.guarded_of_refused hp, finish, Session.refuse, Reporter.tell,
      log_append]
    rfl

theorem outcome_completion (colored : Emphasis → String → String) (rounds : Nat) (o : Options)
    (source : String) :
    Outcome colored rounds o source
      (completion rounds (form? o) source ⟨reporter colored o, .fresh⟩) where
  lexical := scan_errors_inOrder source
  grammatical := parse_errors_inOrder source
  refused h := by
    have hp : (compile source).problems ≠ [] := by
      simpa only [compile, ne_eq, List.append_eq_nil_iff, List.map_eq_nil_iff, not_and_or] using h
    exact completion_of_refused hp (form? o)
  displayed hp form hform := by
    rw [hform, completion, Session.write_of_fit hp]
    rfl
  ran hp hform hfinishes := by
    rw [hform, completion]
    have h := Session.ends_guarded rounds source ⟨reporter colored o, .fresh⟩
    generalize Session.guarded rounds source ⟨reporter colored o, .fresh⟩ = after at h
    cases h with
    | refused hp' => exact absurd hp hp'
    | finished _ hr =>
      rw [hr]
      rfl
    | failed _ hr =>
      rw [hr]
      simp only [finish, Reporter.tell, log_append]
      rfl
    | unfinished _ hr => exact absurd (congrArg Prod.fst hr) hfinishes

/-- The outcome of a file that can be read is settled by its text and by what is asked for. -/
theorem complete_file {args : List String} {path : String} (hplan : plan args = .file o path)
    (rounds : Nat) (read : String → Option ByteArray) (input : String)
    (colored : Emphasis → String → String) :
    let c := complete rounds read input args colored
    (∀ source, text? read path = some source → Outcome colored rounds o source c) ∧
      (text? read path = none → c = if path = Session.consolePath
        then ⟨65, "", (reporter colored o).diagnostics [.reservedPath path]⟩
        else unreadable path (reporter colored o)) := by
  intro c
  have hc : c = onFile colored rounds o path (read path) := by simp only [c, complete, hplan]
  rw [hc]
  constructor
  · intro source h
    rw [onFile_of_text h]
    exact outcome_completion colored rounds o source
  · intro h
    rw [onFile_of_no_text h]

/-- A program that fails behind a line of output. -/
theorem complete_file_failing :
    let source := "print 1;\nprint -nil;\nprint 3;"
    let read := fun path => if path = "p.lox" then some source.toUTF8 else none
    let c := complete 0 read "" ["p.lox", "--no-color"] Emphasis.ansi
    c.status = 70 ∧ c.out = "1\n" ∧
      c.err = "[line 2] RuntimeError at '-': Operand must be a number.\n" := by
  intro source read c
  have hplan : plan ["p.lox", "--no-color"] = .file { file := "p.lox", noColor := true } "p.lox" := by rfl
  have h := (complete_file hplan 0 read "" Emphasis.ansi).1 source (by decide +kernel)
  have hp : (compile source).problems = [] := List.isEmpty_iff.1 (by decide +kernel)
  have hend : (ended? Emphasis.ansi { file := "p.lox", noColor := true }
    (Stmt.execAll 0 (compile source).statements .fresh)).map
      (fun c => (c.status, c.out, c.err)) =
        some (70, "1\n", "[line 2] RuntimeError at '-': Operand must be a number.\n") := by
          decide +kernel
  rw [← h.ran hp rfl (by decide +kernel)] at hend
  simpa using hend

end Lox.CommandLine
