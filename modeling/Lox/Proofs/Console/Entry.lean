import Lox.Console.Dialogue
import Lox.Proofs.Console.Pieces
import Lox.Proofs.Grammar.Nesting
import Lox.Proofs.Source.LineEnd

namespace Lox

open Grammar

variable {source : String}

theorem nested_of_compile (h : (compile source).problems = []) :
    Nested ((scan source).tokens.map Token.kind) := by
  obtain ⟨-, ts, stop, hts, hstop, hr⟩ := reads_of_compile h
  rw [hts]
  exact nested_concat hr.nested (isBracket_of_eq hstop rfl)

theorem hasOpenBrace_eq_false (h : (compile source).problems = []) : hasOpenBrace source = false := by
  have hb : Balanced .leftBrace .rightBrace ((scan source).tokens.map Token.kind) :=
    (nested_of_compile h).balanced (by decide)
  simp [hasOpenBrace, hb.count_eq]

theorem compile_concat_newline (h : (compile source).problems = []) :
    compile (source ++ "\n") = ⟨(compile source).statements, []⟩ := by
  obtain ⟨hl, ts, stop, hts, hstop, hr⟩ := reads_of_compile h
  obtain ⟨us, stop', stop'', hus, htokens, -, hstop'', herrors⟩ := scan_concat_newline hl
  obtain ⟨rfl, -⟩ := List.append_inj' (hts.symm.trans hus) rfl
  have hp : parse (ts ++ [stop'']) = ⟨(compile source).statements, []⟩ :=
    parse_of_reads hr.kind_ne_eof hstop'' hr
  simp only [compile, htokens, herrors, hp]
  rfl

theorem Session.absorb_state (s : Session) (e : Option Escape) : (s.absorb e).1.state = s.state := rfl

namespace Dialogue

theorem enterCode_of_closed (rounds : Nat) {line : String} {d : Dialogue}
    (h : hasOpenBrace (d.pending ++ line ++ "\n") = false) :
    (d.enterCode rounds line).dialogue.pending = "" ∧
      (d.enterCode rounds line).dialogue.session.state =
        (d.session.run rounds (d.pending ++ line ++ "\n")).1.state := by
  simp only [enterCode, h, Bool.false_eq_true, if_false]
  rcases d.session.run rounds (d.pending ++ line ++ "\n") with ⟨s, e⟩
  have hs := s.absorb_state e
  rcases ha : s.absorb e with ⟨s', _ | e'⟩
  all_goals
    rw [ha] at hs
    exact ⟨rfl, hs⟩

/-- A program that compiles has balanced braces and parentheses, nowhere more closed than opened.
With its last line, with or without the line end, the console runs it at once. -/
theorem enterCode_of_compile (h : (compile source).problems = []) :
    Balanced .leftBrace .rightBrace ((scan source).tokens.map Token.kind) ∧
      Balanced .leftParen .rightParen ((scan source).tokens.map Token.kind) ∧
      hasOpenBrace source = false ∧
      ∀ (rounds : Nat) (d : Dialogue) (line : String),
        source = d.pending ++ line ∨ source = d.pending ++ line ++ "\n" →
        let after := (d.enterCode rounds line).dialogue
        after.pending = "" ∧
          after.session.state = (Stmt.execAll rounds (compile source).statements d.session.state).2 := by
  have hn := nested_of_compile h
  refine ⟨hn.balanced (by decide), hn.balanced (by decide), hasOpenBrace_eq_false h,
    fun rounds d line hs => ?_⟩
  -- what the console compiles ends in a line end, whether or not the source does
  obtain ⟨hstatements, hproblems⟩ :
      (compile (d.pending ++ line ++ "\n")).statements = (compile source).statements ∧
      (compile (d.pending ++ line ++ "\n")).problems = [] := by
    obtain rfl | rfl := hs
    · rw [compile_concat_newline h]
      exact ⟨rfl, rfl⟩
    · exact ⟨rfl, h⟩
  obtain ⟨hpending, hstate⟩ := enterCode_of_closed rounds (hasOpenBrace_eq_false hproblems)
  refine ⟨hpending, hstate.trans ?_⟩
  rw [Session.run_of_fit hproblems, hstatements]

/-- Braces in a string and in a comment do not count, and the last line closes the block. -/
theorem enterCode_of_compile_pending :
    let waiting := "\x7b print \"\x7b\"; // \x7b\n"
    let d : Dialogue := ⟨⟨{ fatal := false, color := false }, .fresh⟩, waiting, secondaryPrompt⟩
    let after := (d.enterCode 0 "\x7d").dialogue
    (compile (d.pending ++ "\x7d")).problems = [] ∧ d.pending ≠ "" ∧ after.pending = "" ∧
      after.session.state.output = "\x7b\n" := by
  intro waiting d after
  have h : (compile (d.pending ++ "\x7d")).problems = [] := List.isEmpty_iff.1 (by decide +kernel)
  obtain ⟨hpending, hstate⟩ := (enterCode_of_compile h).2.2.2 0 d "\x7d" (.inl rfl)
  refine ⟨h, by decide, hpending, ?_⟩
  rw [hstate]
  decide +kernel

end Dialogue

end Lox
