import Lox.Proofs.Grammar.Success

namespace Lox.Grammar

open Rule

variable {expr : Rule Expr} {ts mid : List Token}

theorem noneNext_or_eq_cons (kinds : Kind → Bool) (ts : List Token) :
    NoneNext kinds ts ∨ ∃ t us, ts = t :: us ∧ kinds t.kind = true := by
  cases ts with
  | nil => exact .inl noneNext_nil
  | cons t us =>
    cases ht : kinds t.kind with
    | false => exact .inl (noneNext_cons.2 ht)
    | true => exact .inr ⟨t, us, rfl, ht⟩

/-- What the first token of a primary expression decides. -/
inductive PrimaryStart (t : Token) : Prop
  | literal {v : Value} (hv : literal? t = some v)
      (h : ∀ (inner : Rule Expr) ts, primary inner (t :: ts) = .ok (.literal v) ts)
  | name (hk : t.kind = .identifier)
      (h : ∀ (inner : Rule Expr) ts, primary inner (t :: ts) = .ok (.name t) ts)
  | grouping (hk : t.kind = .leftParen)
      (h : ∀ (inner : Rule Expr) ts, primary inner (t :: ts) = grouping inner ts)
  | none (h : ∀ (inner : Rule Expr) u us, u.kind = t.kind →
      primary inner (u :: us) = .fail .unmatched (u :: us))

theorem primaryStart (t : Token) : PrimaryStart t := by
  have hnone : (∀ (u : Token) (inner : Rule Expr) us, u.kind = t.kind →
      primary inner (u :: us) = .fail .unmatched (u :: us)) →
        PrimaryStart t := fun h => .none fun inner u => h u inner
  obtain ⟨kind, lexeme, value, line⟩ := t
  cases kind with
  | kwFalse | kwTrue | kwNil | number | string => exact .literal rfl fun _ _ => rfl
  | identifier => exact .name rfl fun _ _ => rfl
  | leftParen => exact .grouping rfl fun _ _ => rfl
  | _ =>
    refine hnone fun u inner us hu => ?_
    simp only at hu
    simp only [primary, hu]

theorem unary_cons_of_isUnary {t : Token} (ht : isUnary t.kind = true) (inner : Rule Expr)
    (ts : List Token) :
    unary inner (t :: ts) = (unary inner >>= fun e => pure (.unary t e)) ts := by
  simp only [unary, ht, if_true, bind_apply]
  cases unary inner ts <;> rfl

theorem unary_of_noneNext (ht : NoneNext isUnary ts) (inner : Rule Expr) :
    unary inner ts = primary inner ts := by
  cases ts with
  | nil => rfl
  | cons t ts => simp [unary, noneNext_cons.1 ht]

theorem chainFrom_of_operator {isOperator : Kind → Bool} {combine : Expr → Token → Expr → Expr} {m : Nat}
    {op : Token} (ho : isOperator op.kind = true) (operand : Rule Expr) (left : Expr) (ts : List Token) :
    chainFrom operand isOperator combine (m + 1) left (op :: ts) =
      (operand >>= fun right => chainFrom operand isOperator combine m (combine left op right)) ts := by
  simp only [chainFrom, bind_apply, accept, ho, if_true]

section Assignment

variable {m : Nat} {left : Expr} {equals : Token}

theorem assignment_ne_ok (h : ∀ a r, expr ts ≠ .ok a r) (k : Nat) (e : Expr) (rest : List Token) :
    assignment expr k ts ≠ .ok e rest := by
  cases k with
  | zero => exact h e rest
  | succ k =>
    intro he
    obtain ⟨he, -⟩ | ⟨_, _, _, _, he, -⟩ := assignment_succ_eq_ok.1 he <;> exact h _ _ he

theorem assignment_of_name {target : Token} (h : expr ts = .ok (.name target) (equals :: mid))
    (hq : equals.kind = .equal) :
    assignment expr (m + 1) ts =
      (assignment expr m >>= fun right => pure (.assign target right)) mid := by
  simp only [assignment, bind_apply, h, accept, hq, BEq.rfl, if_true]

theorem assignment_of_not_name (hl : ∀ t, left ≠ .name t) (h : expr ts = .ok left (equals :: mid))
    (hq : equals.kind = .equal) :
    assignment expr (m + 1) ts =
      (assignment expr m >>= fun _ => (fail (.badTarget equals) : Rule Expr)) mid := by
  simp only [assignment, bind_apply, h, accept, hq, BEq.rfl, if_true]

theorem assignment_ne_ok_of_not_name (hl : ∀ t, left ≠ .name t) (h : expr ts = .ok left (equals :: mid))
    (hq : equals.kind = .equal) (e : Expr) (rest : List Token) :
    assignment expr (m + 1) ts ≠ .ok e rest := by
  rw [assignment_of_not_name hl h hq]
  intro he
  obtain ⟨_, _, _, hf⟩ := bind_eq_ok.1 he
  exact fail_ne_ok hf

end Assignment

theorem expression_nil (n : Nat) : expression n [] = .fail .unmatched [] := by
  cases n <;> rfl

theorem item_of_noneNext (h : NoneNext (· == .kwVar) ts) (expr : Rule Expr) (stmt : Rule Stmt) :
    item expr stmt ts = stmt ts := by
  cases ts with
  | nil => rfl
  | cons t ts =>
    have ht : t.kind ≠ .kwVar := by simpa [noneNext_cons] using h
    simp only [item, ht, if_false]

theorem item_of_var {var : Token} (hv : var.kind = .kwVar) (expr : Rule Expr) (stmt : Rule Stmt)
    (ts : List Token) :
    item expr stmt (var :: ts) = declaration expr ts := by
  simp only [item, hv, if_true]

theorem blockBody_nil_eq (expr : Rule Expr) (stmt : Rule Stmt) (m : Nat) :
    blockBody expr stmt m [] = .fail (.expected .rightBrace "Expect '\x7d' after block.") [] := by
  cases m <;> rfl

theorem blockBody_of_item {t : Token} (ht : t.kind ≠ .rightBrace) (expr : Rule Expr)
    (stmt : Rule Stmt) (m : Nat) (ts : List Token) :
    blockBody expr stmt (m + 1) (t :: ts) =
      (item expr stmt >>= fun first => blockBody expr stmt m >>= fun others =>
        pure (first :: others)) (t :: ts) := by
  simp only [blockBody, closing, expect, ht, if_false]

theorem statement_nil_eq (n : Nat) : statement n [] = .fail .unmatched [] := by
  cases n <;> rfl

def startsKeyword (k : Kind) : Bool := [.kwFor, .kwIf, .kwPrint, .kwWhile, .leftBrace].contains k

theorem statement_of_noneNext (h : NoneNext startsKeyword ts) (n : Nat) :
    statement (n + 1) ts = expressionStatement (expression (n + 1)) ts := by
  cases ts with
  | nil => simp only [statement, expressionStatement, bind_apply, expression_nil]
  | cons t ts =>
    rw [noneNext_cons] at h
    obtain ⟨kind, lexeme, value, line⟩ := t
    cases kind with
    | kwFor | kwIf | kwPrint | kwWhile | leftBrace => cases h
    | _ => rfl

end Lox.Grammar
