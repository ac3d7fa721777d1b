import Lox.Proofs.Grammar.Progress
import Lox.Proofs.Grammar.Semicolon

namespace Lox

namespace Grammar

def Tape.behind (tape : Tape) (front : List Token) (hf : ∀ t ∈ front, t.kind ≠ .eof) : Tape where
  body := front ++ tape.body
  stop := tape.stop
  after := tape.after
  isEof_body := fun t ht =>
    (List.mem_append.1 ht).elim (fun h => by simpa [Token.isEof] using hf t h) (tape.isEof_body t)
  isEof_stop := tape.isEof_stop

namespace Tape

variable {tape : Tape} {front : List Token}

theorem tokens_behind (hf : ∀ t ∈ front, t.kind ≠ .eof) :
    (tape.behind front hf).tokens = front ++ tape.tokens :=
  List.append_assoc ..

theorem parse_behind (hf : ∀ t ∈ front, t.kind ≠ .eof) {results : List (Except SyntaxError Stmt)}
    {m : Nat} (hm : tape.body.length ≤ m)
    (h : program tape.stop (front ++ tape.body).length (front ++ tape.body) =
      results ++ program tape.stop m tape.body) :
    parse (front ++ tape.tokens) =
      ⟨results.filterMap Except.toOption ++ (parse tape.tokens).statements,
        results.filterMap error? ++ (parse tape.tokens).errors⟩ := by
  have hbody : program tape.stop m tape.body = program tape.stop tape.body.length tape.body :=
    program_eq_of_length_le (fun _ => kind_body) kind_stop hm (Nat.le_refl _)
  have hp : parse (front ++ tape.tokens) = _ := tokens_behind hf ▸ (tape.behind front hf).parse_tokens
  simp only [behind, h, hbody, List.filterMap_append] at hp
  rw [hp, parse_tokens]

end Tape

/-- What may stand between the start and the semicolon of a simple statement: no other statement
starts there. -/
def SimpleRest (g : List Token) : Prop :=
  ∀ t ∈ g, t.kind ∉
    [Kind.semicolon, .eof, .kwClass, .kwFor, .kwFun, .kwIf, .kwPrint, .kwReturn, .kwVar, .kwWhile]

theorem SimpleRest.kind_ne {g : List Token} (hg : SimpleRest g) {t : Token} (ht : t ∈ g) :
    t.kind ≠ .semicolon ∧ startsStatement t.kind = false := by
  have hk := hg t ht
  revert hk
  cases t.kind <;> decide

inductive SimpleStart (g : List Token) : List Token → Prop
  | print {kw : Token} (hk : kw.kind = .kwPrint) : SimpleStart g [kw]
  | var {kw : Token} (hk : kw.kind = .kwVar) : SimpleStart g [kw]
  | none (hg : ∀ t ∈ g.head?, t.kind ≠ .leftBrace) : SimpleStart g []

theorem SimpleRest.noneNext {g x : List Token} {semi : Token} (hg : SimpleRest g)
    (hb : ∀ t ∈ g.head?, t.kind ≠ .leftBrace) (hs : semi.kind = .semicolon) :
    Rule.NoneNext (· == .kwVar) (g ++ semi :: x) ∧ Rule.NoneNext startsKeyword (g ++ semi :: x) := by
  cases g with
  | nil =>
    rw [List.nil_append, Rule.noneNext_cons, Rule.noneNext_cons, hs]
    decide
  | cons t g =>
    have hk := hg t List.mem_cons_self
    have hbrace := hb t rfl
    rw [List.cons_append, Rule.noneNext_cons, Rule.noneNext_cons]
    revert hk hbrace
    cases t.kind <;> decide

theorem SimpleStart.kind_ne_eof {g h : List Token} (hh : SimpleStart g h) (hg : SimpleRest g)
    {semi : Token} (hs : semi.kind = .semicolon) : ∀ t ∈ h ++ g ++ [semi], t.kind ≠ .eof := by
  intro t ht
  rw [List.append_assoc, List.mem_append, List.mem_append, List.mem_singleton] at ht
  obtain ht | ht | rfl := ht
  · cases hh with
    | print hk | var hk =>
      rw [List.mem_singleton.1 ht, hk]
      decide
    | none => cases ht
  · exact fun hk => hg t ht (by rw [hk]; decide)
  · rw [hs]
    decide

theorem SimpleStart.exists_rule {g h : List Token} (hh : SimpleStart g h) (hg : SimpleRest g)
    {semi : Token} (hs : semi.kind = .semicolon) (n : Nat) (x : List Token) :
    ∃ p : Rule Stmt, EndsAtSemicolon p ∧
      item (expression n) (statement (n + 1)) (h ++ g ++ semi :: x) = p (g ++ semi :: x) := by
  cases hh with
  | print hk =>
    refine ⟨_, endsAtSemicolon_printing (stopsAtSemicolon_expression n) (forward_expression n), ?_⟩
    simp only [List.cons_append, List.nil_append, item, statement, hk, reduceCtorEq, if_false]
  | var hk =>
    refine ⟨_, endsAtSemicolon_declaration (stopsAtSemicolon_expression n) (forward_expression n), ?_⟩
    simp only [List.cons_append, List.nil_append, item, hk, if_true]
  | none hb =>
    refine ⟨_, endsAtSemicolon_expressionStatement (stopsAtSemicolon_expression (n + 1))
      (forward_expression (n + 1)), ?_⟩
    obtain ⟨hvar, hkeyword⟩ := hg.noneNext (x := x) hb hs
    rw [List.nil_append, item_of_noneNext hvar, statement_of_noneNext hkeyword]

/-- Whether it fails or not, the turn of a simple statement ends right behind its semicolon. -/
theorem oneTurn_simple {g h : List Token} (hh : SimpleStart g h) (hg : SimpleRest g) {semi : Token}
    (hs : semi.kind = .semicolon) (stop : Token) (n : Nat) (x : List Token) :
    ∃ r, oneTurn stop n (h ++ g ++ semi :: x) = (r, x) := by
  obtain ⟨p, hp, hitem⟩ := hh.exists_rule hg hs n x
  obtain ⟨s, hok⟩ | ⟨fault, rest, hrest, hfail⟩ := hp g semi x hs fun t ht => (hg.kind_ne ht).1
  · exact ⟨.ok s, by simp only [oneTurn, hitem, hok]⟩
  · have hr := recover_append_semicolon (x := x) hs fun t ht => hg.kind_ne (hrest.mem ht)
    exact ⟨.error (fault.toError stop (rest ++ semi :: x)), by simp only [oneTurn, hitem, hfail, hr]⟩

end Grammar

open Grammar Grammar.Walk

variable {a b : List Token} {stop : Token}

/-- Behind tokens that are read without an error, all that does not start with an `else` is read as
by itself. -/
theorem parse_append (ha : ∀ t ∈ a, t.kind ≠ .eof) (hs : stop.kind = .eof) (hb : ∃ t ∈ b, t.kind = .eof)
    (he : ∀ t ∈ b.head?, t.kind ≠ .kwElse) (hp : (parse (a ++ [stop])).errors = []) :
    parse (a ++ b) = ⟨(parse (a ++ [stop])).statements ++ (parse b).statements, (parse b).errors⟩ := by
  obtain ⟨tape, rfl⟩ := exists_tape hb
  have hr := reads_of_concat ha hs hp
  have hn : Rule.NoneNext (· == .kwElse) tape.body := fun t ht => by
    have hm : t ∈ tape.tokens.head? := by
      rw [Tape.tokens, List.head?_append, Option.mem_def.1 ht, Option.some_or, Option.mem_some_iff]
    simpa using he t hm
  have hi : AcceptsItems a (parse (a ++ [stop])).statements := hr.accepts
  obtain ⟨m, hm, hprogram⟩ : ∃ m, tape.body.length ≤ m ∧
      program tape.stop (a ++ tape.body).length (a ++ tape.body) =
        (parse (a ++ [stop])).statements.map .ok ++ program tape.stop m tape.body :=
          hi.inProgram (Nat.le_refl _) hn
  rw [Tape.parse_behind ha hm hprogram]
  simp [List.filterMap_map, Function.comp_def, Except.toOption, error?]

/-- An `if` without an `else` is finished where an unfinished `print` follows. -/
theorem parse_append_unfinished :
    let a := [.kwIf, .leftParen, .identifier, .rightParen, .identifier, .semicolon].map bare
    let b := [.kwPrint, .semicolon, .identifier, .semicolon, .eof].map bare
    (∀ t ∈ a, t.kind ≠ .eof) ∧ (bare .eof).kind = .eof ∧ (∃ t ∈ b, t.kind = .eof) ∧
      (∀ t ∈ b.head?, t.kind ≠ .kwElse) ∧ (parse (a ++ [bare .eof])).errors = [] ∧
      (parse b).statements.length = 1 ∧ (parse b).errors.length = 1 ∧
      parse (a ++ b) =
        ⟨(parse (a ++ [bare .eof])).statements ++ (parse b).statements, (parse b).errors⟩ := by
  intro a b
  have ha : ∀ t ∈ a, t.kind ≠ .eof := by decide
  have hb : ∃ t ∈ b, t.kind = .eof := by decide
  have he : ∀ t ∈ b.head?, t.kind ≠ .kwElse := by decide
  have hp : (parse (a ++ [bare .eof])).errors = [] := List.isEmpty_iff.1 (by decide +kernel)
  exact ⟨ha, rfl, hb, he, hp, by decide +kernel, by decide +kernel, parse_append ha rfl hb he hp⟩

/-- A simple statement with whatever mistake costs one error, and the program behind it is read from
its first token on. -/
theorem parse_simple_append {h g : List Token} {semi : Token} (hh : SimpleStart g h) (hg : SimpleRest g)
    (hs : semi.kind = .semicolon) (hb : ∃ t ∈ b, t.kind = .eof) :
    ∃ r : Except SyntaxError Stmt,
      (∀ n, endMark (h ++ g ++ semi :: b) < n → ∃ turn, Walk.turn n (h ++ g ++ semi :: b) 0 =
        .done turn turn.stop ∧
        turn.outcome = r ∧ turn.stop = (h ++ g ++ [semi]).length) ∧
      ((∃ s, r = .ok s ∧ parse (h ++ g ++ semi :: b) = ⟨s :: (parse b).statements, (parse b).errors⟩) ∨
        ∃ e, r = .error e ∧
          parse (h ++ g ++ semi :: b) = ⟨(parse b).statements, e :: (parse b).errors⟩) := by
  obtain ⟨tape, rfl⟩ := exists_tape hb
  have hf : ∀ t ∈ h ++ g ++ [semi], t.kind ≠ .eof := hh.kind_ne_eof hg hs
  have hfront : h ++ g ++ semi :: tape.tokens = h ++ g ++ [semi] ++ tape.tokens := List.append_cons ..
  have hbody : h ++ g ++ [semi] ++ tape.body = h ++ g ++ semi :: tape.body := (List.append_cons ..).symm
  generalize hk : (h ++ g).length + tape.body.length = k
  have hlength : (h ++ g ++ [semi] ++ tape.body).length = k + 1 := by
    simp only [List.length_append, List.length_cons, List.length_nil] at hk ⊢
    omega
  obtain ⟨r, hone⟩ := oneTurn_simple hh hg hs tape.stop k tape.body
  have hprogram :
      program tape.stop (h ++ g ++ [semi] ++ tape.body).length (h ++ g ++ [semi] ++ tape.body) =
      [r] ++ program tape.stop k tape.body := by
    rw [hlength, hbody, program_eq_oneTurn (by simp), hone]
    rfl
  have hparse := Tape.parse_behind hf (by omega) hprogram
  rw [hfront]
  refine ⟨r, fun n hn => ?_, ?_⟩
  · rw [← Tape.tokens_behind hf] at hn ⊢
    rw [Tape.endMark_tokens] at hn
    have hone' : oneTurn tape.stop k (h ++ g ++ [semi] ++ tape.body) = (r, tape.body) := by
      rw [hbody, hone]
    obtain ⟨turn, hw, houtcome, hstop⟩ := (tape.behind _ hf).turn_of_oneTurn hlength hn hone'
    refine ⟨turn, hw, houtcome, ?_⟩
    have hl : (tape.behind _ hf).body.length = (h ++ g ++ [semi]).length + tape.body.length :=
      List.length_append
    omega
  · rw [hparse]
    cases r with
    | ok s => exact .inl ⟨s, rfl, rfl⟩
    | error e => exact .inr ⟨e, rfl, rfl⟩

/-- The mistake in `print 1 = 2 else;` does not reach the statement behind it. -/
theorem parse_simple_append_mistake :
    let g := [.number, .equal, .number, .kwElse].map bare
    let b := [.identifier, .semicolon, .eof].map bare
    SimpleStart g [bare .kwPrint] ∧ SimpleRest g ∧ (bare .semicolon).kind = .semicolon ∧
      (∃ t ∈ b, t.kind = .eof) ∧
      ∃ e, parse ([bare .kwPrint] ++ g ++ bare .semicolon :: b) =
        ⟨(parse b).statements, e :: (parse b).errors⟩ := by
  intro g b
  have hh : SimpleStart g [bare .kwPrint] := .print rfl
  have hg : SimpleRest g := by
    unfold SimpleRest
    decide
  have hb : ∃ t ∈ b, t.kind = .eof := by decide
  refine ⟨hh, hg, rfl, hb, ?_⟩
  have hs : (bare .semicolon).kind = .semicolon := rfl
  obtain ⟨r, -, ⟨s, -, hp⟩ | ⟨e, -, hp⟩⟩ := parse_simple_append hh hg hs hb
  · have hone : (parse ([bare .kwPrint] ++ g ++ bare .semicolon :: b)).statements.length = 1 := by
      decide +kernel
    have htwo : (parse b).statements.length = 1 := by decide +kernel
    rw [hp] at hone
    simp [htwo] at hone
  · exact ⟨e, hp⟩

end Lox
