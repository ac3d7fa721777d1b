import Lox.Grammar.Program
import Lox.Proofs.Grammar.Reading

namespace Lox.Grammar

open Rule

variable {expr : Rule Expr} {stmt : Rule Stmt} {ts rest : List Token}

theorem expect_then_eq_ok {α : Type} {kind : Kind} {message : String} {a b : α} :
    (expect kind message >>= fun _ => pure a) ts = .ok b rest ↔
      ∃ t, ts = t :: rest ∧ t.kind = kind ∧ a = b := by
  simp only [bind_eq_ok, expect_eq_ok, pure_eq_ok]
  constructor
  · rintro ⟨t, _, ⟨rfl, ht⟩, rfl, rfl⟩
    exact ⟨t, rfl, ht, rfl⟩
  · rintro ⟨t, rfl, ht, rfl⟩
    exact ⟨t, rest, ⟨rfl, ht⟩, rfl, rfl⟩

theorem grouping_eq_ok {e : Expr} :
    grouping expr ts = .ok e rest ↔
      ∃ inner close, expr ts = .ok inner (close :: rest) ∧ close.kind = .rightParen ∧
        .grouping inner = e := by
  simp only [grouping, bind_eq_ok (p := expr), expect_then_eq_ok]
  grind

theorem primary_nil {e : Expr} : primary expr [] ≠ .ok e rest := by simp [primary]

theorem primary_cons_eq_ok {t : Token} {e : Expr} :
    primary expr (t :: ts) = .ok e rest ↔
      (∃ v, literal? t = some v ∧ .literal v = e ∧ ts = rest) ∨
      (t.kind = .identifier ∧ .name t = e ∧ ts = rest) ∨
      (t.kind = .leftParen ∧ grouping expr ts = .ok e rest) := by
  obtain ⟨kind, lexeme, value, line⟩ := t
  cases kind <;> simp [primary, literal?]

theorem unary_nil {e : Expr} : unary expr [] ≠ .ok e rest := by simpa [unary] using primary_nil

theorem unary_cons_eq_ok {t : Token} {e : Expr} :
    unary expr (t :: ts) = .ok e rest ↔
      (isUnary t.kind = true ∧ ∃ right, unary expr ts = .ok right rest ∧ .unary t right = e) ∨
      (isUnary t.kind = false ∧ primary expr (t :: ts) = .ok e rest) := by
  by_cases ht : isUnary t.kind
  · simp only [unary, ht, if_true, true_and, reduceCtorEq, false_and, or_false]
    cases unary expr ts with
    | ok right mid =>
      simp only [Result.ok.injEq]
      constructor
      · rintro ⟨h, rfl⟩
        exact ⟨right, ⟨rfl, rfl⟩, h⟩
      · rintro ⟨_, ⟨rfl, rfl⟩, h⟩
        exact ⟨h, rfl⟩
    | fail fault mid => simp
  · simp [unary, ht]

section Chain

variable {isOperator : Kind → Bool} {combine : Expr → Token → Expr → Expr} {left e : Expr} {n : Nat}

theorem chainFrom_zero_eq_ok :
    chainFrom expr isOperator combine 0 left ts = .ok e rest ↔ left = e ∧ ts = rest := by
  simp only [chainFrom, pure_eq_ok]

theorem chainFrom_succ_eq_ok :
    chainFrom expr isOperator combine (n + 1) left ts = .ok e rest ↔
      (NoneNext isOperator ts ∧ left = e ∧ ts = rest) ∨
      ∃ op mid right mid', ts = op :: mid ∧ isOperator op.kind = true ∧ expr mid = .ok right mid' ∧
        chainFrom expr isOperator combine n (combine left op right) mid' = .ok e rest := by
  simp only [chainFrom, bind_eq_ok]
  constructor
  · rintro ⟨_ | op, mid, ha, h⟩
    · obtain ⟨rfl, hn⟩ := accept_eq_none.1 ha
      exact .inl ⟨hn, pure_eq_ok.1 h⟩
    · obtain ⟨rfl, ho⟩ := accept_eq_some.1 ha
      obtain ⟨right, mid', hr, h⟩ := bind_eq_ok.1 h
      exact .inr ⟨op, mid, right, mid', rfl, ho, hr, h⟩
  · rintro (⟨hn, h⟩ | ⟨op, mid, right, mid', rfl, ho, hr, h⟩)
    · exact ⟨none, ts, accept_eq_none.2 ⟨rfl, hn⟩, pure_eq_ok.2 h⟩
    · exact ⟨some op, mid, accept_eq_some.2 ⟨rfl, ho⟩, bind_eq_ok.2 ⟨right, mid', hr, h⟩⟩

theorem chainFrom_noneNext (h : NoneNext isOperator ts) :
    chainFrom expr isOperator combine n left ts = .ok left ts := by
  cases n with
  | zero => exact chainFrom_zero_eq_ok.2 ⟨rfl, rfl⟩
  | succ n => exact chainFrom_succ_eq_ok.2 (.inl ⟨h, rfl, rfl⟩)

theorem chainFrom_operator {op : Token} {mid : List Token} {right : Expr}
    (ho : isOperator op.kind = true) (h : expr mid = .ok right rest) :
    chainFrom expr isOperator combine (n + 1) left (op :: mid) =
      chainFrom expr isOperator combine n (combine left op right) rest := by
  simp [chainFrom, bind_apply, accept, ho, h]

theorem chain_of_eq_ok (h : expr ts = .ok left rest) :
    chain expr isOperator combine n ts = chainFrom expr isOperator combine n left rest := by
  simp [chain, bind_apply, h]

theorem chain_eq_ok :
    chain expr isOperator combine n ts = .ok e rest ↔
      ∃ left mid, expr ts = .ok left mid ∧ chainFrom expr isOperator combine n left mid = .ok e rest :=
  bind_eq_ok

end Chain

theorem assignment_succ_eq_ok {n : Nat} {e : Expr} :
    assignment expr (n + 1) ts = .ok e rest ↔
      (expr ts = .ok e rest ∧ NoneNext (· == .equal) rest) ∨
      ∃ target equals mid right, expr ts = .ok (.name target) (equals :: mid) ∧ equals.kind = .equal ∧
        assignment expr n mid = .ok right rest ∧ .assign target right = e := by
  simp only [assignment, bind_eq_ok]
  constructor
  · rintro ⟨left, mid, hl, _ | equals, mid', ha, h⟩
    · obtain ⟨rfl, hn⟩ := accept_eq_none.1 ha
      obtain ⟨rfl, rfl⟩ := pure_eq_ok.1 h
      exact .inl ⟨hl, hn⟩
    · obtain ⟨rfl, hq⟩ := accept_eq_some.1 ha
      obtain ⟨right, mid'', hr, h⟩ := bind_eq_ok.1 h
      cases left with
      | name target =>
        obtain ⟨rfl, rfl⟩ := pure_eq_ok.1 h
        exact .inr ⟨target, equals, mid', right, hl, by simpa using hq, hr, rfl⟩
      | _ => exact absurd h fail_ne_ok
  · rintro (⟨hl, hn⟩ | ⟨target, equals, mid, right, hl, hq, hr, rfl⟩)
    · exact ⟨e, rest, hl, none, rest, accept_eq_none.2 ⟨rfl, hn⟩, rfl⟩
    · exact ⟨_, _, hl, some equals, mid, accept_eq_some.2 ⟨rfl, by simp [hq]⟩,
        bind_eq_ok.2 ⟨right, rest, hr, rfl⟩⟩

namespace Level

def rule (n : Nat) : Level → Rule Expr
  | comma => expression (n + 1)
  | assignment => Grammar.assignment (Grammar.disjunction (n + 1) (expression n)) (n + 1)
  | disjunction => Grammar.disjunction (n + 1) (expression n)
  | conjunction => Grammar.conjunction (n + 1) (expression n)
  | equality => Grammar.equality (n + 1) (expression n)
  | comparison => Grammar.comparison (n + 1) (expression n)
  | term => Grammar.term (n + 1) (expression n)
  | factor => Grammar.factor (n + 1) (expression n)
  | unary => Grammar.unary (expression n)
  | primary => Grammar.primary (expression n)

theorem rule_of_isChain (n : Nat) {l : Level} (hl : l.isChain = true) :
    l.rule n = chain (l.tighter.rule n) l.isOperator l.combine (n + 1) := by
  have chain_congr : ∀ (f g : Kind → Bool) (operand : Rule Expr) (combine : Expr → Token → Expr → Expr),
      (∀ k, f k = g k) → chain operand f combine (n + 1) = chain operand g combine (n + 1) := by
    intro f g operand combine h
    rw [funext h]
  cases l with
  | assignment | unary | primary => simp [isChain] at hl
  | comma | disjunction | conjunction | equality | comparison | term | factor =>
    exact chain_congr _ _ _ _ fun k => by cases k <;> rfl

end Level

section Statements

variable {s : Stmt} {e : Expr}

theorem declaration_eq_ok :
    declaration expr ts = .ok s rest ↔
      ∃ name mid, ts = name :: mid ∧ name.kind = .identifier ∧
        ((∃ semi, mid = semi :: rest ∧ semi.kind = .semicolon ∧ .declare name (.literal .nil) = s) ∨
          ∃ equals mid' e semi, mid = equals :: mid' ∧ equals.kind = .equal ∧
            expr mid' = .ok e (semi :: rest) ∧ semi.kind = .semicolon ∧ .declare name e = s) := by
  simp only [declaration, bind_eq_ok, expect_eq_ok]
  constructor
  · rintro ⟨name, mid, ⟨rfl, hn⟩, _ | equals, mid', ha, h⟩
    · obtain ⟨rfl, _⟩ := accept_eq_none.1 ha
      exact ⟨name, _, rfl, hn, .inl (expect_then_eq_ok.1 h)⟩
    · obtain ⟨rfl, hq⟩ := accept_eq_some.1 ha
      obtain ⟨e, _, he, h⟩ := bind_eq_ok.1 h
      obtain ⟨semi, rfl, hs, h⟩ := expect_then_eq_ok.1 h
      exact ⟨name, _, rfl, hn, .inr ⟨equals, mid', e, semi, rfl, by simpa using hq, he, hs, h⟩⟩
  · rintro ⟨name, mid, rfl, hn, ⟨semi, rfl, hs, h⟩ | ⟨equals, mid', e, semi, rfl, hq, he, hs, h⟩⟩
    · have ha : accept (· == .equal) (semi :: rest) = .ok none (semi :: rest) :=
        accept_eq_none.2 ⟨rfl, noneNext_cons.2 (by simp [hs])⟩
      exact ⟨name, _, ⟨rfl, hn⟩, none, _, ha, expect_then_eq_ok.2 ⟨semi, rfl, hs, h⟩⟩
    · have ha : accept (· == .equal) (equals :: mid') = .ok (some equals) mid' :=
        accept_eq_some.2 ⟨rfl, by simp [hq]⟩
      exact ⟨name, _, ⟨rfl, hn⟩, some equals, mid', ha,
        bind_eq_ok.2 ⟨e, _, he, expect_then_eq_ok.2 ⟨semi, rfl, hs, h⟩⟩⟩

theorem printing_eq_ok :
    printing expr ts = .ok s rest ↔
      ∃ e semi, expr ts = .ok e (semi :: rest) ∧ semi.kind = .semicolon ∧ .print e = s := by
  simp only [printing, bind_eq_ok (p := expr), expect_then_eq_ok]
  grind

theorem expressionStatement_eq_ok :
    expressionStatement expr ts = .ok s rest ↔
      ∃ e semi, expr ts = .ok e (semi :: rest) ∧ semi.kind = .semicolon ∧ .expression e = s := by
  simp only [expressionStatement, bind_eq_ok (p := expr), expect_then_eq_ok]
  grind

theorem conditional_eq_ok :
    conditional expr stmt ts = .ok s rest ↔
      ∃ opening mid condition closing mid' yes mid'', ts = opening :: mid ∧ opening.kind = .leftParen ∧
        expr mid = .ok condition (closing :: mid') ∧ closing.kind = .rightParen ∧
        stmt mid' = .ok yes mid'' ∧
        ((NoneNext (· == .kwElse) mid'' ∧ mid'' = rest ∧ .ifThen condition yes = s) ∨
          ∃ other mid''' no, mid'' = other :: mid''' ∧ other.kind = .kwElse ∧
            stmt mid''' = .ok no rest ∧ .ifElse condition yes no = s) := by
  simp only [conditional, bind_eq_ok, expect_eq_ok]
  constructor
  · rintro ⟨opening, mid, ⟨rfl, ho⟩, condition, _, hc, closing, mid', ⟨rfl, hr⟩, yes, mid'', hy,
      _ | other, mid''', ha, h⟩
    · obtain ⟨rfl, hn⟩ := accept_eq_none.1 ha
      obtain ⟨rfl, rfl⟩ := pure_eq_ok.1 h
      exact ⟨opening, mid, condition, closing, mid', yes, _, rfl, ho, hc, hr, hy, .inl ⟨hn, rfl, rfl⟩⟩
    · obtain ⟨rfl, he⟩ := accept_eq_some.1 ha
      obtain ⟨no, _, hs, h⟩ := bind_eq_ok.1 h
      obtain ⟨rfl, rfl⟩ := pure_eq_ok.1 h
      exact ⟨opening, mid, condition, closing, mid', yes, _, rfl, ho, hc, hr, hy,
        .inr ⟨other, mid''', no, rfl, by simpa using he, hs, rfl⟩⟩
  · rintro ⟨opening, mid, condition, closing, mid', yes, mid'', rfl, ho, hc, hr, hy, h⟩
    refine ⟨opening, mid, ⟨rfl, ho⟩, condition, _, hc, closing, mid', ⟨rfl, hr⟩, yes, mid'', hy, ?_⟩
    obtain ⟨hn, rfl, rfl⟩ | ⟨other, mid''', no, rfl, he, hs, rfl⟩ := h
    · exact ⟨none, mid'', accept_eq_none.2 ⟨rfl, hn⟩, rfl⟩
    · exact ⟨some other, mid''', accept_eq_some.2 ⟨rfl, by simp [he]⟩, bind_eq_ok.2 ⟨no, rest, hs, rfl⟩⟩

theorem whileLoop_eq_ok :
    whileLoop expr stmt ts = .ok s rest ↔
      ∃ opening mid condition closing mid' body, ts = opening :: mid ∧ opening.kind = .leftParen ∧
        expr mid = .ok condition (closing :: mid') ∧ closing.kind = .rightParen ∧
        stmt mid' = .ok body rest ∧ .whileLoop condition body = s := by
  simp only [whileLoop, bind_eq_ok, expect_eq_ok, pure_eq_ok]
  constructor
  · rintro ⟨opening, mid, ⟨rfl, ho⟩, condition, _, hc, closing, mid', ⟨rfl, hr⟩, body, _, hb, rfl, rfl⟩
    exact ⟨opening, mid, condition, closing, mid', body, rfl, ho, hc, hr, hb, rfl⟩
  · rintro ⟨opening, mid, condition, closing, mid', body, rfl, ho, hc, hr, hb, rfl⟩
    exact ⟨opening, mid, ⟨rfl, ho⟩, condition, _, hc, closing, mid', ⟨rfl, hr⟩, body, _, hb, rfl, rfl⟩

theorem firstClause_eq_ok {first : Option Stmt} :
    firstClause expr ts = .ok first rest ↔
      (∃ semi, ts = semi :: rest ∧ semi.kind = .semicolon ∧ none = first) ∨
      (∃ var mid s, ts = var :: mid ∧ var.kind = .kwVar ∧ declaration expr mid = .ok s rest ∧
        some s = first) ∨
      (NoneNext (fun k => k == .semicolon || k == .kwVar) ts ∧
        ∃ s, expressionStatement expr ts = .ok s rest ∧ some s = first) := by
  simp only [firstClause, bind_eq_ok]
  constructor
  · rintro ⟨_ | semi, mid, ha, h⟩
    · obtain ⟨rfl, hn⟩ := accept_eq_none.1 ha
      obtain ⟨_ | var, mid', ha', h'⟩ := bind_eq_ok.1 h
      · obtain ⟨rfl, hv⟩ := accept_eq_none.1 ha'
        exact .inr (.inr ⟨fun t ht => Bool.or_eq_false_iff.2 ⟨hn t ht, hv t ht⟩, map_eq_ok.1 h'⟩)
      · obtain ⟨rfl, hv⟩ := accept_eq_some.1 ha'
        obtain ⟨s, hs, h''⟩ := map_eq_ok.1 h'
        exact .inr (.inl ⟨var, mid', s, rfl, by simpa using hv, hs, h''⟩)
    · obtain ⟨rfl, hs⟩ := accept_eq_some.1 ha
      obtain ⟨hf, rfl⟩ := pure_eq_ok.1 h
      exact .inl ⟨semi, rfl, by simpa using hs, hf⟩
  · rintro (⟨semi, rfl, hs, h⟩ | ⟨var, mid, s, rfl, hv, hs, h⟩ | ⟨hn, h⟩)
    · exact ⟨some semi, rest, accept_eq_some.2 ⟨rfl, by simp [hs]⟩, pure_eq_ok.2 ⟨h, rfl⟩⟩
    · have hn : accept (· == .semicolon) (var :: mid) = .ok none (var :: mid) :=
        accept_eq_none.2 ⟨rfl, noneNext_cons.2 (by simp [hv])⟩
      have ha : accept (· == .kwVar) (var :: mid) = .ok (some var) mid :=
        accept_eq_some.2 ⟨rfl, by simp [hv]⟩
      exact ⟨none, _, hn, bind_eq_ok.2 ⟨some var, mid, ha, map_eq_ok.2 ⟨s, hs, h⟩⟩⟩
    · have hs : accept (· == .semicolon) ts = .ok none ts :=
        accept_eq_none.2 ⟨rfl, fun t ht => (Bool.or_eq_false_iff.1 (hn t ht)).1⟩
      have hv : accept (· == .kwVar) ts = .ok none ts :=
        accept_eq_none.2 ⟨rfl, fun t ht => (Bool.or_eq_false_iff.1 (hn t ht)).2⟩
      exact ⟨none, ts, hs, bind_eq_ok.2 ⟨none, ts, hv, map_eq_ok.2 h⟩⟩

theorem forLoop_eq_ok :
    forLoop expr stmt ts = .ok s rest ↔
      ∃ opening mid first mid' condition semi mid'' step closing mid''' body,
        ts = opening :: mid ∧ opening.kind = .leftParen ∧ firstClause expr mid = .ok first mid' ∧
        unlessNext .semicolon expr mid' = .ok condition (semi :: mid'') ∧ semi.kind = .semicolon ∧
        unlessNext .rightParen expr mid'' = .ok step (closing :: mid''') ∧ closing.kind = .rightParen ∧
        stmt mid''' = .ok body rest ∧ .forLoop first condition step body = s := by
  simp only [forLoop, bind_eq_ok, expect_eq_ok, pure_eq_ok]
  constructor
  · rintro ⟨opening, mid, ⟨rfl, ho⟩, first, mid', hf, condition, _, hc, semi, mid'', ⟨rfl, hs⟩,
      step, _, hp, closing, mid''', ⟨rfl, hr⟩, body, _, hb, rfl, rfl⟩
    exact ⟨opening, mid, first, mid', condition, semi, mid'', step, closing, mid''', body,
      rfl, ho, hf, hc, hs, hp, hr, hb, rfl⟩
  · rintro ⟨opening, mid, first, mid', condition, semi, mid'', step, closing, mid''', body,
      rfl, ho, hf, hc, hs, hp, hr, hb, rfl⟩
    exact ⟨opening, mid, ⟨rfl, ho⟩, first, mid', hf, condition, _, hc, semi, mid'', ⟨rfl, hs⟩,
      step, _, hp, closing, mid''', ⟨rfl, hr⟩, body, _, hb, rfl, rfl⟩

theorem item_cons_eq_ok {t : Token} :
    item expr stmt (t :: ts) = .ok s rest ↔
      (t.kind = .kwVar ∧ declaration expr ts = .ok s rest) ∨
      (t.kind ≠ .kwVar ∧ stmt (t :: ts) = .ok s rest) := by
  by_cases ht : t.kind = .kwVar <;> simp [item, ht]

theorem blockBody_zero_eq_ok {ss : List Stmt} :
    blockBody expr stmt 0 ts = .ok ss rest ↔
      ∃ close, ts = close :: rest ∧ close.kind = .rightBrace ∧ [] = ss := by
  simp only [blockBody, closing, map_eq_ok, expect_eq_ok]
  grind

theorem blockBody_nil {n : Nat} {ss : List Stmt} : blockBody expr stmt n [] ≠ .ok ss rest := by
  cases n with
  | zero => simp [blockBody_zero_eq_ok]
  | succ n => simp [blockBody, closing, expect]

theorem blockBody_cons_eq_ok {n : Nat} {t : Token} {ss : List Stmt} :
    blockBody expr stmt (n + 1) (t :: ts) = .ok ss rest ↔
      (t.kind = .rightBrace ∧ ts = rest ∧ [] = ss) ∨
      (t.kind ≠ .rightBrace ∧ ∃ s mid ss', item expr stmt (t :: ts) = .ok s mid ∧
        blockBody expr stmt n mid = .ok ss' rest ∧ s :: ss' = ss) := by
  by_cases ht : t.kind = .rightBrace
  · simp [blockBody, closing, expect, ht, and_comm]
  · simp only [blockBody, closing, expect, ht, if_false, bind_eq_ok, pure_eq_ok, false_and, false_or,
      ne_eq, not_false_eq_true, true_and]
    constructor
    · rintro ⟨s, mid, hs, ss', _, hb, h, rfl⟩
      exact ⟨s, mid, ss', hs, hb, h⟩
    · rintro ⟨s, mid, ss', hs, hb, h⟩
      exact ⟨s, mid, hs, ss', rest, hb, h, rfl⟩

theorem statement_nil {n : Nat} : statement n [] ≠ .ok s rest := by
  cases n <;> simp [statement, fail]

theorem statement_zero : statement 0 ts ≠ .ok s rest := by simp [statement, fail]

theorem statement_cons_eq_ok {n : Nat} {t : Token} :
    statement (n + 1) (t :: ts) = .ok s rest ↔
      (t.kind = .kwFor ∧ forLoop (expression n) (statement n) ts = .ok s rest) ∨
      (t.kind = .kwIf ∧ conditional (expression n) (statement n) ts = .ok s rest) ∨
      (t.kind = .kwPrint ∧ printing (expression n) ts = .ok s rest) ∨
      (t.kind = .kwWhile ∧ whileLoop (expression n) (statement n) ts = .ok s rest) ∨
      (t.kind = .leftBrace ∧ ∃ ss, blockBody (expression n) (statement n) n ts = .ok ss rest ∧
        .block ss = s) ∨
      (t.kind ∉ [.kwFor, .kwIf, .kwPrint, .kwWhile, .leftBrace] ∧
        expressionStatement (expression (n + 1)) (t :: ts) = .ok s rest) := by
  obtain ⟨kind, lexeme, value, line⟩ := t
  cases kind <;> simp [statement, map_eq_ok]

end Statements

end Lox.Grammar
