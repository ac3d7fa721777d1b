import Lox.Proofs.Grammar.Completeness
import Lox.Proofs.Grammar.Derivation
import Lox.Proofs.Grammar.Soundness

namespace Lox.Grammar

variable {body : List Token} {stop : Token}

theorem parse_of_reads {ss : List Stmt} (hb : ∀ t ∈ body, t.kind ≠ .eof) (hs : stop.kind = .eof)
    (h : ReadsPhrase body (.items ss)) : parse (body ++ [stop]) = ⟨ss, []⟩ := by
  rw [parse_append_stop hb hs, h.program_eq]
  simp [List.filterMap_map, Function.comp_def, Except.toOption, error?]

theorem reads_of_program {n : Nat} {ts : List Token} (hn : ts.length ≤ n)
    (h : ∀ r ∈ program stop n ts, r.isOk = true) :
    ReadsPhrase ts (.items ((program stop n ts).filterMap Except.toOption)) := by
  induction n generalizing ts with
  | zero =>
    cases List.length_eq_zero_iff.1 (Nat.le_zero.1 hn)
    exact .nil
  | succ n ih =>
    cases ts with
    | nil => exact .nil
    | cons t ts =>
      simp only [program] at h ⊢
      cases hi : item (expression n) (statement (n + 1)) (t :: ts) with
      | fail fault rest => simp [hi, Except.isOk, Except.toBool] at h
      | ok s rest =>
        obtain ⟨w, hw, hr⟩ := item_sound (expression_sound n) (statement_sound (n + 1)) hi
        have hl : rest.length ≤ n := by
          cases w with
          | nil => exact absurd rfl hr.ne_nil
          | cons u us =>
            have := congrArg List.length hw
            simp only [List.length_cons, List.cons_append, List.length_append] at this hn
            omega
        simp only [hi] at h ⊢
        rw [hw]
        exact hr.append (ih hl fun r hm => h r (List.mem_cons_of_mem _ hm))

theorem reads_of_parse {tokens : List Token} (h : (parse tokens).errors = []) :
    ReadsPhrase (tokens.takeWhile fun t => !t.isEof) (.items (parse tokens).statements) := by
  refine reads_of_program (Nat.le_refl _) fun r hr => ?_
  cases r with
  | ok s => rfl
  | error e => simpa [error?] using List.filterMap_eq_nil_iff.1 h _ hr

theorem reads_of_concat (hb : ∀ t ∈ body, t.kind ≠ .eof) (hs : stop.kind = .eof)
    (h : (parse (body ++ [stop])).errors = []) :
    ReadsPhrase body (.items (parse (body ++ [stop])).statements) := by
  have hr := reads_of_parse h
  have hk : ∀ t ∈ body, (!t.isEof) = true := fun t ht => by simpa [Token.isEof] using hb t ht
  rwa [List.takeWhile_append_of_pos hk, List.takeWhile_cons_of_neg (by simp [Token.isEof, hs]),
    List.append_nil] at hr

/-- The parser finds no error in a list of tokens just if the grammar derives it. -/
theorem parse_errors_eq_nil_iff (hb : ∀ t ∈ body, t.kind ≠ .eof) (hs : stop.kind = .eof) :
    (parse (body ++ [stop])).errors = [] ↔
      Derives (.category .program) ((body ++ [stop]).map Token.kind) := by
  rw [derives_program_iff hs]
  constructor
  · intro h
    exact ⟨_, reads_of_concat hb hs h⟩
  · rintro ⟨ss, h⟩
    rw [parse_of_reads hb hs h]

def bare (k : Kind) : Token := ⟨k, "", .nil, 1⟩

/-- An `else` behind two conditionals is fine, a declaration as a branch is not. -/
theorem derives_branch_of_statement :
    let nested := [.kwIf, .leftParen, .identifier, .rightParen, .kwIf, .leftParen, .kwNil, .rightParen,
      .number, .semicolon, .kwElse, .identifier, .equal, .string, .semicolon].map bare
    let declared :=
      [.kwIf, .leftParen, .identifier, .rightParen, .kwVar, .identifier, .semicolon].map bare
    (∀ t ∈ nested, t.kind ≠ .eof) ∧ (∀ t ∈ declared, t.kind ≠ .eof) ∧ (bare .eof).kind = .eof ∧
      Derives (.category .program) ((nested ++ [bare .eof]).map Token.kind) ∧
      ¬ Derives (.category .program) ((declared ++ [bare .eof]).map Token.kind) := by
  refine ⟨by decide, by decide, rfl, ?_, ?_⟩
  · exact (parse_errors_eq_nil_iff (by decide) rfl).1 (List.isEmpty_iff.1 (by decide +kernel))
  · intro h
    have he := (parse_errors_eq_nil_iff (by decide) rfl).2 h
    exact absurd (List.isEmpty_iff.2 he) (by decide +kernel)

end Lox.Grammar
