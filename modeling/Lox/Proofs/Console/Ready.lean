import Lox.Console.Dialogue
import Lox.Proofs.Console.Report

namespace Lox

namespace Command

def leaves : Command → Bool
  | exit | endOfInput => true
  | _ => false

def isAside : Command → Bool
  | nothing | ast _ | rpn _ | help => true
  | _ => false

def text? : Command → Option String
  | code text => some text
  | _ => none

end Command

namespace Dialogue

variable {rounds : Nat} {source line : String} {d : Dialogue}

/-- Has a program run, and takes note of how it ends. -/
def handOver (rounds : Nat) (source : String) (d : Dialogue) : Turn :=
  match d.session.guarded rounds source with
  | (session, none) => ⟨⟨session.reset, "", primaryPrompt⟩, "", .goOn⟩
  | (session, some e) => ⟨⟨session, "", primaryPrompt⟩, "", .fail e⟩

theorem enterCode_of_open (h : hasOpenBrace (d.pending ++ line ++ "\n") = true) :
    d.enterCode rounds line =
      ⟨{ d with pending := d.pending ++ line ++ "\n", prompt := secondaryPrompt }, "", .goOn⟩ := by
  rw [enterCode, if_pos h]

theorem enterCode_of_no_open (h : hasOpenBrace (d.pending ++ line ++ "\n") = false) :
    d.enterCode rounds line = d.handOver rounds (d.pending ++ line ++ "\n") := by
  rcases hrun : d.session.run rounds (d.pending ++ line ++ "\n") with ⟨session, e⟩
  rcases habsorb : session.absorb e with ⟨session', _ | e'⟩
  all_goals simp only [enterCode, h, Bool.false_eq_true, if_false, handOver, Session.guarded, hrun,
    habsorb]

theorem display_eq (d : Dialogue) (r : Session × Option String) :
    d.display r = ⟨{ d with session := r.1.reset }, Session.displayed r.2, .goOn⟩ := by
  cases r
  rfl

def Finishes (rounds : Nat) (line : String) (d : Dialogue) : Prop :=
  ∀ text ∈ (Command.ofLine line).text?, d.session.Finishes rounds (d.pending ++ text ++ "\n")

instance : Decidable (d.Finishes rounds line) :=
  inferInstanceAs (Decidable (∀ text ∈ (Command.ofLine line).text?, _))

/-- How a dialogue stands at a prompt. Lines wait only while they have an open brace. -/
structure Ready (d : Dialogue) : Prop where
  hadError : d.session.reporter.hadError = false
  hadRuntimeError : d.session.reporter.hadRuntimeError = false
  fatal : d.session.reporter.fatal = false
  prompt : d.prompt = if d.pending = "" then "> " else ". "
  lineEnd : d.pending ≠ "" → ∃ text, d.pending = text ++ "\n"
  openBrace : d.pending ≠ "" →
    let kinds := (scan d.pending).tokens.map Token.kind
    kinds.count .rightBrace < kinds.count .leftBrace
  isGlobal : d.session.state.scopes.isGlobal = true

theorem ready_of_reset {session : Session} (hf : session.reporter.fatal = false)
    (hg : session.state.scopes.isGlobal = true) : Ready ⟨session.reset, "", primaryPrompt⟩ where
  hadError := rfl
  hadRuntimeError := rfl
  fatal := hf
  prompt := rfl
  lineEnd h := absurd rfl h
  openBrace h := absurd rfl h
  isGlobal := hg

theorem Ready.takeOutput (h : d.Ready) : Ready { d with session := d.session.takeOutput.2 } where
  hadError := h.hadError
  hadRuntimeError := h.hadRuntimeError
  fatal := h.fatal
  prompt := h.prompt
  lineEnd := h.lineEnd
  openBrace := h.openBrace
  isGlobal := h.isGlobal

theorem Ready.wait (h : d.Ready) (ho : hasOpenBrace (source ++ "\n") = true) :
    Ready { d with pending := source ++ "\n", prompt := secondaryPrompt } where
  hadError := h.hadError
  hadRuntimeError := h.hadRuntimeError
  fatal := h.fatal
  prompt := by
    have hne : source ++ "\n" ≠ "" := by simp
    exact (if_neg hne).symm
  lineEnd _ := ⟨source, rfl⟩
  openBrace _ := of_decide_eq_true ho
  isGlobal := h.isGlobal

theorem Ready.display (h : d.Ready) (form : Stmt → Option String) (source : String) :
    (d.display (d.session.write form source)).dialogue.Ready := by
  have hf : (d.session.write form source).1.reporter.fatal = false := by
    by_cases hp : (compile source).problems = []
    · rw [Session.write_of_fit hp]
      exact h.fatal
    · rw [Session.write_of_refused hp]
      exact h.fatal
  have hg : (d.session.write form source).1.state.scopes.isGlobal = true := by
    rw [Session.write_fst, Session.accept_state]
    exact h.isGlobal
  generalize d.session.write form source = r at hf hg
  rw [display_eq]
  exact ⟨rfl, rfl, hf, h.prompt, h.lineEnd, h.openBrace, hg⟩

/-- What becomes of a line at a prompt. -/
inductive Answers (rounds : Nat) (line : String) (d : Dialogue) : Turn → Prop
  | goOn {turn : Turn} (hl : (Command.ofLine line).leaves = false) (hr : turn.dialogue.Ready)
      (hv : turn.verdict = .goOn) : Answers rounds line d turn
  | leave {turn : Turn} (hl : (Command.ofLine line).leaves = true) (hv : turn.verdict = .leave) :
      Answers rounds line d turn
  | unfinished {turn : Turn} (hf : ¬ d.Finishes rounds line)
      (hv : turn.verdict = .fail (.ofHalt .unfinished)) :
      Answers rounds line d turn

theorem Ready.handOver (h : d.Ready) (rounds : Nat) (source : String) :
    (d.handOver rounds source).dialogue.Ready ∧ (d.handOver rounds source).verdict = .goOn ∨
      ¬ d.session.Finishes rounds source ∧
        (d.handOver rounds source).verdict = .fail (.ofHalt .unfinished) := by
  have hg : (Stmt.execAll rounds (compile source).statements d.session.state).2.scopes.isGlobal = true :=
    Stmt.execAll_isGlobal rounds h.isGlobal
  rw [Dialogue.handOver]
  have he := Session.ends_guarded rounds source d.session
  generalize d.session.guarded rounds source = after at he
  cases he with
  | refused hp => exact .inl ⟨ready_of_reset h.fatal h.isGlobal, rfl⟩
  | finished hp hr =>
    rw [hr] at hg
    exact .inl ⟨ready_of_reset h.fatal hg, rfl⟩
  | failed hp hr =>
    -- at the console no runtime error is fatal
    rw [hr] at hg
    rw [h.fatal]
    exact .inl ⟨ready_of_reset h.fatal hg, rfl⟩
  | unfinished hp hr =>
    exact .inr ⟨fun hf => hf hp (by rw [hr]), rfl⟩

theorem Ready.enterCode (h : d.Ready) (rounds : Nat) (text : String) :
    (d.enterCode rounds text).dialogue.Ready ∧ (d.enterCode rounds text).verdict = .goOn ∨
      ¬ d.session.Finishes rounds (d.pending ++ text ++ "\n") ∧
        (d.enterCode rounds text).verdict = .fail (.ofHalt .unfinished) := by
  cases ho : hasOpenBrace (d.pending ++ text ++ "\n") with
  | true =>
    rw [enterCode_of_open ho]
    exact .inl ⟨h.wait ho, rfl⟩
  | false =>
    rw [enterCode_of_no_open ho]
    exact h.handOver rounds _

theorem Ready.enter (h : d.Ready) (rounds : Nat) (line : String) :
    Answers rounds line d (d.enter rounds line) := by
  rw [Dialogue.enter]
  cases hc : Command.ofLine line with
  | nothing | help => exact .goOn (by rw [hc]; rfl) h rfl
  | ast source | rpn source =>
    simp only [Session.parenthesized, Session.reversed]
    exact .goOn (by rw [hc]; rfl) (h.display _ source) (by rw [display_eq])
  | exit | endOfInput => exact .leave (by rw [hc]; rfl) rfl
  | code text =>
    obtain ⟨hr, hv⟩ | ⟨hu, hv⟩ := h.enterCode rounds text
    · exact .goOn (by rw [hc]; rfl) hr hv
    · exact .unfinished (fun hf => hu (hf text (by rw [hc]; rfl))) hv

theorem enter_of_isAside (h : (Command.ofLine line).isAside = true) :
    (d.enter rounds line).dialogue.pending = d.pending ∧
      (d.enter rounds line).dialogue.session.state = d.session.state := by
  have hwrite : ∀ form source, (d.session.write form source).1.reset.state = d.session.state := by
    intro form source
    have hreset : ∀ session : Session, session.reset.state = session.state := fun _ => rfl
    rw [hreset, Session.write_fst, Session.accept_state]
  rw [enter]
  cases hc : Command.ofLine line with
  | nothing | help => exact ⟨rfl, rfl⟩
  | ast source | rpn source =>
    simp only [display_eq, Session.parenthesized, Session.reversed, hwrite, and_self]
  | exit | endOfInput | code => simp [hc, Command.isAside] at h

def turns (rounds : Nat) : List String → Dialogue → List (Dialogue × String)
  | [], d => [(d, "EOF")]
  | line :: lines, d =>
    (d, line) :: match (d.exchange rounds line).2 with
      | (d, .goOn) => turns rounds lines d
      | _ => []

theorem converse_fst (rounds : Nat) (lines : List String) (d : Dialogue) :
    (d.converse rounds lines).1 =
      (d.turns rounds lines).map fun (d, line) => (d.exchange rounds line).1 := by
  induction lines generalizing d with
  | nil => rfl
  | cons line lines ih =>
    rw [converse, turns]
    rcases hx : d.exchange rounds line with ⟨x, d', _ | _ | e⟩
    · simp [hx, ih]
    · simp [hx]
    · simp [hx]

def after (rounds : Nat) (line : String) (d : Dialogue) : Dialogue := (d.exchange rounds line).2.1

theorem turns_of_goOn (hv : (d.enter rounds line).verdict = .goOn) (lines : List String) :
    d.turns rounds (line :: lines) = (d, line) :: (d.after rounds line).turns rounds lines ∧
      (d.converse rounds (line :: lines)).2.2 = ((d.after rounds line).converse rounds lines).2.2 := by
  have hx : d.exchange rounds line = ((d.exchange rounds line).1, d.after rounds line, .goOn) := by
    rw [← hv]; rfl
  rw [turns, converse, hx]
  exact ⟨rfl, rfl⟩

theorem turns_of_stop (hv : (d.enter rounds line).verdict ≠ .goOn) (lines : List String) :
    d.turns rounds (line :: lines) = [(d, line)] ∧
      (d.converse rounds (line :: lines)).2.2 = (d.enter rounds line).verdict := by
  have hx : d.exchange rounds line =
      ((d.exchange rounds line).1, d.after rounds line, (d.enter rounds line).verdict) := rfl
  rw [turns, converse, hx]
  generalize (d.enter rounds line).verdict = verdict at hv
  cases verdict with
  | goOn => exact absurd rfl hv
  | leave | fail => exact ⟨rfl, rfl⟩

/-- The lines that are taken, of all that there are, are those up to the first that ends the
dialogue. -/
def EndsWith (taken lines : List String) : Prop :=
  ∃ before last rest, lines = before ++ last :: rest ∧ taken = before ++ [last] ∧
    (∀ line ∈ before, (Command.ofLine line).leaves = false) ∧ (Command.ofLine last).leaves = true

theorem EndsWith.cons {taken lines : List String} (h : EndsWith taken lines)
    (hl : (Command.ofLine line).leaves = false) : EndsWith (line :: taken) (line :: lines) := by
  obtain ⟨before, last, rest, rfl, rfl, hb, hlast⟩ := h
  exact ⟨line :: before, last, rest, rfl, rfl, List.forall_mem_cons.2 ⟨hl, hb⟩, hlast⟩

theorem endsWith_last (h : (Command.ofLine line).leaves = true) (lines : List String) :
    EndsWith [line] (line :: lines) :=
  ⟨[], line, lines, rfl, rfl, fun _ hl => absurd hl List.not_mem_nil, h⟩

theorem leaves_endOfInput : (Command.ofLine "EOF").leaves = true := by rfl

theorem Ready.turns (h : d.Ready) (rounds : Nat) (lines : List String) :
    (∀ turn ∈ d.turns rounds lines, turn.1.Ready) ∧
      ((∀ turn ∈ d.turns rounds lines, turn.1.Finishes rounds turn.2) →
        (d.converse rounds lines).2.2 = .leave ∧
          EndsWith ((d.turns rounds lines).map Prod.snd) (lines ++ ["EOF"])) := by
  induction lines generalizing d with
  | nil => exact ⟨List.forall_mem_singleton.2 h, fun _ => ⟨rfl, endsWith_last leaves_endOfInput []⟩⟩
  | cons line lines ih =>
    cases h.enter rounds line with
    | goOn hl hr hv =>
      obtain ⟨ht, hc⟩ := turns_of_goOn hv lines
      obtain ⟨hready, hend⟩ := ih hr.takeOutput
      rw [ht, hc]
      refine ⟨List.forall_mem_cons.2 ⟨h, hready⟩, fun hf => ?_⟩
      obtain ⟨hverdict, htaken⟩ := hend (List.forall_mem_cons.1 hf).2
      exact ⟨hverdict, htaken.cons hl⟩
    | leave hl hv =>
      obtain ⟨ht, hc⟩ := turns_of_stop (by rw [hv]; exact Verdict.noConfusion) lines
      rw [ht, hc]
      exact ⟨List.forall_mem_singleton.2 h, fun _ => ⟨hv, endsWith_last hl _⟩⟩
    | unfinished hu hv =>
      obtain ⟨ht, hc⟩ := turns_of_stop (by rw [hv]; exact Verdict.noConfusion) lines
      rw [ht, hc]
      exact ⟨List.forall_mem_singleton.2 h, fun hf => absurd (hf _ List.mem_cons_self) hu⟩

theorem ready_new (fatal color : Bool) (colored : Emphasis → String → String) :
    Ready { session := .atConsole { fatal, color, colored } } := by
  have hready : Ready ⟨Session.reset (.atConsole { fatal, color, colored }), "", primaryPrompt⟩ :=
    ready_of_reset rfl rfl
  exact hready

/-- At every prompt of a conversation no mark of an error is set, lines wait only for a brace to be
closed, and the current scope is the global one. No error ends it: if each program that is run comes
to an end, the conversation goes on to the first line that is made to end it, or to the end of the
input. What is no part of a program changes neither what waits nor what is bound. -/
theorem converse_ready (rounds : Nat) (fatal color : Bool) (colored : Emphasis → String → String)
    (lines : List String) :
    let d : Dialogue := { session := .atConsole { fatal, color, colored } }
    let turns := d.turns rounds lines
    (d.converse rounds lines).1 = turns.map (fun (d, line) => (d.exchange rounds line).1) ∧
      (∀ turn ∈ turns, turn.1.Ready) ∧
      ((∀ turn ∈ turns, turn.1.Finishes rounds turn.2) →
        (d.converse rounds lines).2.2 = .leave ∧ EndsWith (turns.map Prod.snd) (lines ++ ["EOF"])) ∧
      ∀ (d : Dialogue) (line : String), (Command.ofLine line).isAside = true →
        (d.after rounds line).pending = d.pending ∧
          (d.after rounds line).session.state.scopes = d.session.state.scopes := by
  intro d turns
  have hready : d.Ready := ready_new fatal color colored
  obtain ⟨hturns, hend⟩ := hready.turns rounds lines
  refine ⟨converse_fst rounds lines d, hturns, hend, fun d line hl => ?_⟩
  have ha : (d.enter rounds line).dialogue.pending = d.pending ∧
      (d.enter rounds line).dialogue.session.state = d.session.state := enter_of_isAside hl
  have hscopes : (d.enter rounds line).dialogue.session.state.scopes = d.session.state.scopes :=
    congrArg State.scopes ha.2
  exact ⟨ha.1, hscopes⟩

/-- An error in an entry, one beside it while it waits, and a line that comes too late. -/
def unsettled : List String := ["\x7b print -nil;", "ast 1 +", "\x7d", "exit", "print 4;"]

theorem converse_ready_unsettled :
    (converse 0 unsettled { session := .atConsole { fatal := true, color := false } }).2.2 = .leave ∧
      (converse 0 unsettled { session := .atConsole { fatal := true, color := false } }).1.map
        Exchange.prompt = ["> ", ". ", ". ", "> "] := by
  have hfinishes :
      ∀ turn ∈ turns 0 unsettled { session := .atConsole { fatal := true, color := false } },
        turn.1.Finishes 0 turn.2 := by decide +kernel
  obtain ⟨hx, -, hend, -⟩ := converse_ready 0 true false Emphasis.ansi unsettled
  refine ⟨(hend hfinishes).1, ?_⟩
  rw [hx]
  decide +kernel

end Dialogue

end Lox
