import Lox.Proofs.Grammar.Relocation
import Lox.Proofs.Run.Relocation
import Lox.Proofs.Source.Seam

namespace Lox

deriving instance DecidableEq for Value

/-- One line for everything: what is relocated there differs no longer in its lines. -/
def nowhere (_ : Int) : Int := 0

theorem Token.map_relocate_nowhere {ts us : List Token} (h : ts.map reading = us.map reading) :
    ts.map (relocate nowhere) = us.map (relocate nowhere) := by
  have hr :
      relocate nowhere = (fun (kind, lexeme, literal) => ⟨kind, lexeme, literal, 0⟩) ∘ reading := rfl
  rw [hr, ← List.map_map, h, List.map_map]

namespace SyntaxError

def expected? : SyntaxError → Option Kind
  | expected k _ _ => some k
  | _ => none

/-- All that is said about an error but its line. -/
structure Report where
  kindName : String
  hint : String
  message : String
  expected? : Option Kind
  deriving DecidableEq

def report (e : SyntaxError) : Report := ⟨e.kindName, e.token.hint, e.message, e.expected?⟩

theorem report_relocate (place : Int → Int) (e : SyntaxError) :
    (e.relocate place).report = e.report := by
  cases e <;> rfl

theorem map_report_of_relocate {place : Int → Int} {es fs : List SyntaxError}
    (h : es.map (relocate place) = fs.map (relocate place)) : es.map report = fs.map report := by
  have hr : report = report ∘ relocate place := funext fun e => (e.report_relocate place).symm
  rw [hr, ← List.map_map, h, List.map_map]

end SyntaxError

theorem Stmt.relocate_execAll {place : Int → Int} {ss ts : List Stmt}
    (h : ss.map (relocate place) = ts.map (relocate place)) (rounds : Nat) :
    (execAll rounds ss).relocate place = (execAll rounds ts).relocate place := by
  rw [← execAll_relocate, ← execAll_relocate, relocateAll_eq_map, relocateAll_eq_map, h]

theorem scan_has_eof (source : String) : ∃ t ∈ (scan source).tokens, t.kind = .eof := by
  obtain ⟨ts, stop, hts, -, hstop⟩ := scan_tokens_eq_concat source
  exact ⟨stop, by simp [hts], hstop⟩

/-- Where two sources have the same tokens but for their lines, the same statements are read but for
their lines, the same errors are found, and running the statements has the same effects and comes to
the same end. -/
theorem parse_eq_of_reading_eq {s t : String}
    (h : (scan s).tokens.map Token.reading = (scan t).tokens.map Token.reading) :
    let p := parse (scan s).tokens
    let q := parse (scan t).tokens
    p.statements.map (Stmt.relocate nowhere) = q.statements.map (Stmt.relocate nowhere) ∧
      p.errors.map SyntaxError.report = q.errors.map SyntaxError.report ∧
      ∀ (rounds : Nat) (state : State),
        let a := Stmt.execAll rounds p.statements state
        let b := Stmt.execAll rounds q.statements state
        a.2 = b.2 ∧ a.1.mapError (Halt.relocate nowhere) = b.1.mapError (Halt.relocate nowhere) := by
  have hpq : (parse (scan s).tokens).relocate nowhere = (parse (scan t).tokens).relocate nowhere := by
    rw [← parse_map (scan_has_eof s), ← parse_map (scan_has_eof t), Token.map_relocate_nowhere h]
  generalize parse (scan s).tokens = p at *
  generalize parse (scan t).tokens = q at *
  obtain ⟨hs, he⟩ := Parse.mk.inj hpq
  refine ⟨hs, SyntaxError.map_report_of_relocate he, fun rounds state => ?_⟩
  have hrun := congrFun (Stmt.relocate_execAll hs rounds) state
  simp only [Run.relocate, Prod.mk.injEq] at hrun
  exact ⟨hrun.2, hrun.1⟩

/-- A comment, empty lines and a missing expression: the error and the failure are the same, on
other lines. -/
theorem parse_eq_of_reading_eq_spread :
    let s := "print 1 + nil; print"
    let t := "print // sum\n1 + nil;\n\nprint /* nothing */"
    let p := parse (scan s).tokens
    let q := parse (scan t).tokens
    let a := Stmt.execAll 0 p.statements ⟨.empty, ""⟩
    let b := Stmt.execAll 0 q.statements ⟨.empty, ""⟩
    (scan s).tokens.map Token.reading = (scan t).tokens.map Token.reading ∧
      p.errors.map (fun e => e.token.line) = [1] ∧ q.errors.map (fun e => e.token.line) = [4] ∧
      p.errors.map SyntaxError.report = q.errors.map SyntaxError.report ∧
      a.1.isOk = false ∧ a.1.mapError (Halt.relocate nowhere) =
        b.1.mapError (Halt.relocate nowhere) := by
  intro s t p q a b
  have h : (scan s).tokens.map Token.reading = (scan t).tokens.map Token.reading := by decide +kernel
  obtain ⟨-, herrors, hruns⟩ := parse_eq_of_reading_eq h
  exact ⟨h, by decide +kernel, by decide +kernel, herrors, by decide +kernel, (hruns 0 _).2⟩

end Lox
