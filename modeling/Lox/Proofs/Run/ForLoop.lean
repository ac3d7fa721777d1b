import Lox.Proofs.Grammar.Acceptance
import Lox.Proofs.Grammar.Precedence
import Lox.Proofs.Run.Names
import Lox.Proofs.Run.Padding

namespace Lox

open Run

theorem Run.bind_pure_unit {σ : Type} (p : Run σ Unit) : (do p; pure ()) = p := by
  funext s
  rw [bind_apply]
  obtain ⟨result, s'⟩ := p s
  cases result <;> rfl

namespace Exec

def holds : Option Expr → Exec Bool
  | some c => test c
  | none => pure true

def perform : Option Expr → Exec Unit
  | some e => do let _ ← eval e
  | none => pure ()

def runFirst (rounds : Nat) : Option Stmt → Exec Unit
  | some s => s.exec rounds
  | none => pure ()

/-- The loop with a first statement, a condition and a step around any run. -/
def forLoop (rounds : Nat) (first : Option Stmt) (condition step : Option Expr) (body : Exec Unit) :
    Exec Unit :=
  inScope do
    runFirst rounds first
    loop (holds condition) (do body; perform step) rounds

theorem test_getD (condition : Option Expr) :
    test (condition.getD (.literal (.bool true))) = holds condition := by
  cases condition with
  | some c => rfl
  | none =>
    funext state
    rfl

theorem perform_keeps (step : Option Expr) : Keeps State.declared (perform step) := by
  cases step with
  | some e => exact (eval_keeps e).bind fun _ => keeps_pure _
  | none => exact keeps_pure _

theorem perform_respects (step : Option Expr) (k : Nat) :
    Respects (State.Related (Scopes.Padded k)) (perform step) := by
  cases step with
  | some e => exact (eval_respects Scopes.simulates_padded fun _ _ => trivial).bind fun _ =>
    respects_pure _
  | none => exact respects_pure _

theorem holds_respects (condition : Option Expr) (k : Nat) :
    Respects (State.Related (Scopes.Padded k)) (holds condition) := by
  cases condition with
  | some c => exact test_respects Scopes.simulates_padded fun _ _ => trivial
  | none => exact respects_pure _

end Exec

namespace Stmt

def roundOf (step : Option Expr) (body : Stmt) : Stmt :=
  match step with
  | some e => block [body, expression e]
  | none => body

def loopOf (condition step : Option Expr) (body : Stmt) : Stmt :=
  whileLoop (condition.getD (.literal (.bool true))) (roundOf step body)

theorem forLoop_some (first : Stmt) (condition step : Option Expr) (body : Stmt) :
    forLoop (some first) condition step body = block [first, loopOf condition step body] := rfl

theorem forLoop_none (condition step : Option Expr) (body : Stmt) :
    forLoop none condition step body = loopOf condition step body := rfl

variable {body : Stmt} (hw : body.isWellShaped = true) (hd : body.isDeclaration = false) (n : Nat)

include hw hd

theorem roundOf_respects (step : Option Expr) :
    Respects (State.Related (Scopes.Padded 0)) (do body.exec n; Exec.perform step) :=
  (exec_respects_padded hw hd n 0).bind fun _ => Exec.perform_respects step 0

theorem exec_roundOf (step : Option Expr) :
    (roundOf step body).exec n = (do body.exec n; Exec.perform step) := by
  cases step with
  | some e =>
    have hb : execAll n [body, expression e] = (do body.exec n; Exec.perform (some e)) := by
      simp only [execAll, bind_pure_unit]
      rfl
    rw [roundOf, exec, hb]
    exact Exec.inScope_eq_self (roundOf_respects hw hd n (some e))
  | none => exact (bind_pure_unit _).symm

theorem exec_loopOf (condition step : Option Expr) : (loopOf condition step body).exec n =
    Exec.loop (Exec.holds condition) (do body.exec n; Exec.perform step) n := by
  rw [loopOf, exec, Exec.test_getD, exec_roundOf hw hd]

theorem exec_forLoop (first : Option Stmt) (condition step : Option Expr) :
    (forLoop first condition step body).exec n = Exec.forLoop n first condition step (body.exec n) := by
  cases first with
  | some s =>
    have hb :
        execAll n [s, loopOf condition step body] =
          (do s.exec n; (loopOf condition step body).exec n) := by
      simp only [execAll, bind_pure_unit]
    rw [forLoop_some, exec, hb, exec_loopOf hw hd]
    rfl
  | none =>
    -- around the loop there is no block at all
    have hloop := Exec.loop_respects (Exec.holds_respects condition 0) (roundOf_respects hw hd n step) n
    rw [forLoop_none, exec_loopOf hw hd]
    exact (Exec.inScope_eq_self hloop).symm

end Stmt

namespace Grammar

/-- What the tokens of a phrase mean, where a `for` is a loop of its own. -/
inductive Meaning (n : Nat) : List Token → Phrase → Exec Unit → Prop
  | expression {w : List Token} {semi : Token} {e : Expr} (h : Reads .comma w e)
      (hs : semi.kind = .semicolon) :
      Meaning n (w ++ [semi]) (.statement false (.expression e)) (do let _ ← Exec.eval e)
  | print {print semi : Token} {w : List Token} {e : Expr} (hp : print.kind = .kwPrint)
      (h : Reads .comma w e) (hs : semi.kind = .semicolon) :
      Meaning n (print :: w ++ [semi]) (.statement false (.print e)) (do
        let v ← Exec.eval e
        Exec.emit (v.text ++ "\n"))
  | block {opening closing : Token} {w : List Token} {ss : List Stmt} {run : Exec Unit}
      (ho : opening.kind = .leftBrace) (h : Meaning n w (.items ss) run)
      (hc : closing.kind = .rightBrace) :
      Meaning n (opening :: w ++ [closing]) (.statement false (.block ss)) (Exec.inScope run)
  | ifThen {kw opening closing : Token} {v w : List Token} {c : Expr} {isOpen : Bool} {s : Stmt}
      {run : Exec Unit} (hk : kw.kind = .kwIf) (ho : opening.kind = .leftParen)
      (he : Reads .comma v c) (hc : closing.kind = .rightParen)
      (h : Meaning n w (.statement isOpen s) run) :
      Meaning n (kw :: opening :: v ++ closing :: w) (.statement true (.ifThen c s))
        (do if ← Exec.test c then run)
  | ifElse {kw opening closing other : Token} {v w w' : List Token} {c : Expr} {isOpen : Bool}
      {s s' : Stmt} {run run' : Exec Unit} (hk : kw.kind = .kwIf) (ho : opening.kind = .leftParen)
      (he : Reads .comma v c) (hc : closing.kind = .rightParen)
      (h : Meaning n w (.statement false s) run) (hl : other.kind = .kwElse)
      (h' : Meaning n w' (.statement isOpen s') run') :
      Meaning n (kw :: opening :: v ++ closing :: (w ++ other :: w'))
        (.statement isOpen (.ifElse c s s'))
        (do if ← Exec.test c then run else run')
  | whileLoop {kw opening closing : Token} {v w : List Token} {c : Expr} {isOpen : Bool} {s : Stmt}
      {run : Exec Unit} (hk : kw.kind = .kwWhile) (ho : opening.kind = .leftParen)
      (he : Reads .comma v c) (hc : closing.kind = .rightParen)
      (h : Meaning n w (.statement isOpen s) run) :
      Meaning n (kw :: opening :: v ++ closing :: w) (.statement isOpen (.whileLoop c s))
        (Exec.loop (Exec.test c) run n)
  | forLoop {kw opening semi closing : Token} {u v v' w : List Token} {first : Option Stmt}
      {condition step : Option Expr} {isOpen : Bool} {s : Stmt} {run : Exec Unit} (hk : kw.kind = .kwFor)
      (ho : opening.kind = .leftParen) (hf : ReadsFirst u first) (he : ReadsClause v condition)
      (hs : semi.kind = .semicolon) (hp : ReadsClause v' step) (hc : closing.kind = .rightParen)
      (h : Meaning n w (.statement isOpen s) run) :
      Meaning n (kw :: opening :: u ++ v ++ semi :: v' ++ closing :: w)
        (.statement isOpen (.forLoop first condition step s)) (Exec.forLoop n first condition step run)
  | nil : Meaning n [] (.items []) (pure ())
  | declaration {var : Token} {w w' : List Token} {s : Stmt} {ss : List Stmt} {run : Exec Unit}
      (hv : var.kind = .kwVar) (h : ReadsDeclaration w s) (h' : Meaning n w' (.items ss) run) :
      Meaning n (var :: w ++ w') (.items (s :: ss)) (do s.exec n; run)
  | statement {w w' : List Token} {isOpen : Bool} {s : Stmt} {ss : List Stmt} {run run' : Exec Unit}
      (h : Meaning n w (.statement isOpen s) run) (h' : Meaning n w' (.items ss) run') :
      Meaning n (w ++ w') (.items (s :: ss)) (do run; run')

def Phrase.run (n : Nat) : Phrase → Exec Unit
  | statement _ s => s.exec n
  | items ss => Stmt.execAll n ss

theorem ReadsPhrase.exec_forLoop {w : List Token} {isOpen : Bool} {s : Stmt}
    (h : ReadsPhrase w (.statement isOpen s)) (n : Nat) (first : Option Stmt)
    (condition step : Option Expr) :
    (Stmt.forLoop first condition step s).exec n = Exec.forLoop n first condition step (s.exec n) := by
  obtain ⟨hw, hd, -⟩ := h.isShaped
  exact Stmt.exec_forLoop hw hd n first condition step

/-- A phrase has a meaning, and it is what its tree does. -/
theorem ReadsPhrase.meaning {w : List Token} {p : Phrase} (h : ReadsPhrase w p) (n : Nat) :
    Meaning n w p (p.run n) := by
  induction h with
  | expression h hs => exact .expression h hs
  | print hp h hs => exact .print hp h hs
  | block ho _ hc ih => exact .block ho ih hc
  | ifThen hk ho he hc _ ih => exact .ifThen hk ho he hc ih
  | ifElse hk ho he hc _ hl _ ih ih' => exact .ifElse hk ho he hc ih hl ih'
  | whileLoop hk ho he hc _ ih => exact .whileLoop hk ho he hc ih
  | forLoop hk ho hf he hs hp hc h ih =>
    rw [Phrase.run, h.exec_forLoop]
    exact .forLoop hk ho hf he hs hp hc ih
  | nil => exact .nil
  | declaration hv h _ ih => exact .declaration hv h ih
  | statement _ _ ih ih' => exact .statement ih ih'

theorem Meaning.reads {n : Nat} {w : List Token} {p : Phrase} {run : Exec Unit} (h : Meaning n w p run) :
    ReadsPhrase w p := by
  induction h with
  | expression h hs => exact .expression h hs
  | print hp h hs => exact .print hp h hs
  | block ho _ hc ih => exact .block ho ih hc
  | ifThen hk ho he hc _ ih => exact .ifThen hk ho he hc ih
  | ifElse hk ho he hc _ hl _ ih ih' => exact .ifElse hk ho he hc ih hl ih'
  | whileLoop hk ho he hc _ ih => exact .whileLoop hk ho he hc ih
  | forLoop hk ho hf he hs hp hc _ ih => exact .forLoop hk ho hf he hs hp hc ih
  | nil => exact .nil
  | declaration hv h _ ih => exact .declaration hv h ih
  | statement _ _ ih ih' => exact .statement ih ih'

/-- A phrase has only one meaning. -/
theorem Meaning.eq_run {n : Nat} {w : List Token} {p : Phrase} {run : Exec Unit}
    (h : Meaning n w p run) :
    run = p.run n := by
  induction h with
  | expression | print | nil => rfl
  | block _ _ _ ih =>
    rw [ih]
    rfl
  | ifThen _ _ _ _ _ ih | whileLoop _ _ _ _ _ ih =>
    rw [ih]
    rfl
  | ifElse _ _ _ _ _ _ _ ih ih' =>
    rw [ih, ih']
    rfl
  | forLoop _ _ _ _ _ _ _ h ih =>
    rw [Phrase.run, h.reads.exec_forLoop, ih]
    rfl
  | declaration _ _ _ ih =>
    rw [ih]
    rfl
  | statement _ _ ih ih' =>
    rw [ih, ih']
    rfl

/-- The tokens of a `for`: its clauses in parentheses and the body behind them. -/
inductive ReadsFor (first : Option Stmt) (condition step : Option Expr) (body : List Token) :
    List Token → Prop
  | mk {kw opening semi closing : Token} {u v v' : List Token} (hk : kw.kind = .kwFor)
      (ho : opening.kind = .leftParen) (hf : ReadsFirst u first) (he : ReadsClause v condition)
      (hs : semi.kind = .semicolon) (hp : ReadsClause v' step) (hc : closing.kind = .rightParen) :
      ReadsFor first condition step body (kw :: opening :: u ++ v ++ semi :: v' ++ closing :: body)

theorem ReadsPhrase.eq_forLoop {w : List Token} {s : Stmt} (h : ReadsPhrase w (.items [s]))
    (hk : ∀ t ∈ w.head?, t.kind = .kwFor) : ∃ first condition step b isOpen body,
      ReadsFor first condition step b w ∧ ReadsPhrase b (.statement isOpen body) ∧
        s = .forLoop first condition step body := by
  cases h with
  | declaration hv h h' =>
    have hfor := hk _ rfl
    rw [hv] at hfor
    cases hfor
  | @statement w w' isOpen s ss h h' =>
    cases h' with
    | nil =>
    rw [List.append_nil] at hk ⊢
    cases h with
    | expression h hs =>
      obtain ⟨t, ts, rfl, ht, -⟩ := h.starts
      rw [hk t rfl] at ht
      cases ht
    | print hk' | block hk' | ifThen hk' | ifElse hk' | whileLoop hk' =>
      have hfor := hk _ rfl
      rw [hk'] at hfor
      cases hfor
    | forLoop hkw ho hf he hs hp hc h => exact ⟨_, _, _, _, _, _, .mk hkw ho hf he hs hp hc, h, rfl⟩

end Grammar

open Grammar

/-- Whatever clauses a `for` has and whatever stands in its body, the tree that the parser makes of
it is run as the loop itself, with the body for what its tokens mean. The rounds declare nothing, so
they share the variable of the first clause, and behind the loop it is gone, also after an error. -/
theorem parse_forLoop {w : List Token} {stop : Token} {s : Stmt} (hb : ∀ t ∈ w, t.kind ≠ .eof)
    (hs : stop.kind = .eof) (hk : ∀ t ∈ w.head?, t.kind = .kwFor)
    (hp : parse (w ++ [stop]) = ⟨[s], []⟩) (n : Nat) :
    ∃ first condition step b isOpen body run,
      ReadsFor first condition step b w ∧
      (∀ r, Meaning n b (.statement isOpen body) r ↔ r = run) ∧
      s.exec n = Exec.forLoop n first condition step run ∧
      (∀ state, ((do run; Exec.perform step : Exec Unit) state).2.declared = state.declared) ∧
      ∀ state, (s.exec n state).2.declared = state.declared := by
  have hr := reads_of_concat hb hs (congrArg Parse.errors hp)
  rw [hp] at hr
  obtain ⟨first, condition, step, b, isOpen, body, hw, hbody, rfl⟩ := hr.eq_forLoop hk
  obtain ⟨hshape, hdecl, -⟩ := hbody.isShaped
  refine ⟨first, condition, step, b, isOpen, body, body.exec n, hw, fun r => ⟨fun h => h.eq_run, ?_⟩,
    hbody.exec_forLoop n first condition step, ?_, ?_⟩
  · rintro rfl
    exact hbody.meaning n
  · exact (Stmt.exec_keeps n hshape hdecl).bind fun _ => Exec.perform_keeps step
  · have hloop : Stmt.areWellShaped [.forLoop first condition step body] = true := hr.isShaped
    have hloop' : (Stmt.forLoop first condition step body).isDeclaration = false := by
      cases first <;> rfl
    simp only [Stmt.areWellShaped, Bool.and_true] at hloop
    exact Stmt.exec_keeps n hloop hloop'

/-- Two loops, one in the other, of which only the outer one has all clauses:
`for (var a = true; a; a = false) for (; b;) print b = !a;` -/
def nestedLoops : List Token :=
  let named (x : String) : Token := ⟨.identifier, x, .nil, 1⟩
  let bare := Grammar.bare
  [bare .kwFor, bare .leftParen, bare .kwVar, named "a", bare .equal, bare .kwTrue, bare .semicolon,
    named "a", bare .semicolon, named "a", bare .equal, bare .kwFalse, bare .rightParen,
    bare .kwFor, bare .leftParen, bare .semicolon, named "b", bare .semicolon, bare .rightParen,
    bare .kwPrint, named "b", bare .equal, bare .bang, named "a", bare .semicolon]

theorem parse_forLoop_nested :
    let state : State := ⟨.root [("b", .bool true)], ""⟩
    ∃ s, (∀ t ∈ nestedLoops, t.kind ≠ .eof) ∧ (Grammar.bare .eof).kind = .eof ∧
      (∀ t ∈ nestedLoops.head?, t.kind = .kwFor) ∧
      parse (nestedLoops ++ [Grammar.bare .eof]) = ⟨[s], []⟩ ∧
      ∃ first condition step b isOpen body run, ReadsFor first condition step b nestedLoops ∧
        (∀ r, Meaning 2 b (.statement isOpen body) r ↔ r = run) ∧
        Exec.forLoop 2 first condition step run state =
          (.ok (), ⟨.root [("b", .bool false)], "false\n"⟩) := by
  intro state
  let a : Token := ⟨.identifier, "a", .nil, 1⟩
  let b : Token := ⟨.identifier, "b", .nil, 1⟩
  let inner : Stmt :=
    .forLoop none (some (.name b)) none (.print (.assign b (.unary (Grammar.bare .bang) (.name a))))
  let s : Stmt := .forLoop (some (.declare a (.literal (.bool true)))) (some (.name a))
    (some (.assign a (.literal (.bool false)))) inner
  have hb : ∀ t ∈ nestedLoops, t.kind ≠ .eof := by decide
  have hk : ∀ t ∈ nestedLoops.head?, t.kind = .kwFor := by decide
  have hp : parse (nestedLoops ++ [Grammar.bare .eof]) = ⟨[s], []⟩ := by rfl
  obtain ⟨first, condition, step, b, isOpen, body, run, hw, hm, hs, -⟩ := parse_forLoop hb rfl hk hp 2
  refine ⟨s, hb, rfl, hk, hp, first, condition, step, b, isOpen, body, run, hw, hm, ?_⟩
  rw [← hs]
  rfl

end Lox
