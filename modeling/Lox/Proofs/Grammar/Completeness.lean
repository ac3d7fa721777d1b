import Lox.Proofs.Grammar.Success

namespace Lox.Grammar

open Rule

namespace Level

theorem continues_iff {l : Level} {k : Kind} :
    l.continues k = true ↔ l.rank ≤ (ofOperator k).rank ∧ (ofOperator k).rank < 8 := by
  rw [continues, Bool.and_eq_true, decide_eq_true_iff, decide_eq_true_iff]
  exact Iff.rfl

theorem rank_lt_of_isChain {l : Level} (hl : l.isChain = true) : l.rank < 8 := by
  cases l <;> simp [rank, isChain] at *

theorem noneNext_tighter {l : Level} {ts : List Token} (h : NoneNext l.continues ts) :
    NoneNext l.tighter.continues ts := by
  intro t ht
  have hc := h t ht
  simp only [← Bool.not_eq_true, continues_iff] at hc ⊢
  by_cases hl : l = .primary
  · subst hl
    exact hc
  · have hr := rank_tighter hl
    omega

theorem noneNext_isOperator {l : Level} (hl : l.isChain = true) {ts : List Token}
    (h : NoneNext l.continues ts) : NoneNext l.isOperator ts := by
  intro t ht
  have hc := h t ht
  have hr := rank_lt_of_isChain hl
  simp only [← Bool.not_eq_true, continues_iff, isOperator, beq_iff_eq] at hc ⊢
  rintro rfl
  omega

theorem not_tighter_continues {l : Level} (hl : l.isChain = true) {k : Kind}
    (h : l.isOperator k = true) :
    l.tighter.continues k = false := by
  have hr := rank_tighter (ne_primary_of_isChain hl)
  simp only [isOperator, beq_iff_eq] at h
  simp only [← Bool.not_eq_true, continues_iff, h]
  omega

end Level

def startsExpression (k : Kind) : Bool :=
  isUnary k || [.kwFalse, .kwTrue, .kwNil, .number, .string, .identifier, .leftParen].contains k

theorem startsExpression_of_literal {t : Token} {v : Value} (h : literal? t = some v) :
    startsExpression t.kind = true ∧ isUnary t.kind = false := by
  obtain ⟨kind, lexeme, value, line⟩ := t
  cases kind <;> first | exact ⟨rfl, rfl⟩ | simp [literal?] at h

theorem Reads.starts {l : Level} {w : List Token} {e : Expr} (h : Reads l w e) :
    ∃ t ts, w = t :: ts ∧ startsExpression t.kind = true ∧ (l = .primary → isUnary t.kind = false) := by
  induction h with
  | @literal t v h =>
    obtain ⟨hs, hu⟩ := startsExpression_of_literal h
    exact ⟨t, [], rfl, hs, fun _ => hu⟩
  | @name t h => exact ⟨t, [], rfl, by rw [h]; decide, fun _ => by rw [h]; decide⟩
  | @grouping opening closing w e ho =>
    exact ⟨opening, w ++ [closing], rfl, by rw [ho]; decide, fun _ => by rw [ho]; decide⟩
  | @unary op w e ho => exact ⟨op, w, rfl, by simp [startsExpression, ho], by simp⟩
  | @assign target equals w e ht => exact ⟨target, equals :: w, rfl, by rw [ht]; decide, by simp⟩
  | @operation l op v w a b hl _ _ _ ih =>
    obtain ⟨t, ts, rfl, hs, _⟩ := ih
    exact ⟨t, ts ++ op :: w, rfl, hs, fun h => absurd h (Level.ne_primary_of_isChain hl)⟩
  | tighter _ ih =>
    obtain ⟨t, ts, hw, hs, hu⟩ := ih
    exact ⟨t, ts, hw, hs, fun h => hu (by rw [h]; rfl)⟩

/-- The rule of the level finds the expression where no token goes on with it. -/
def Accepts (l : Level) (w : List Token) (e : Expr) : Prop :=
  ∀ {n : Nat} {rest : List Token}, w.length ≤ n + 1 → NoneNext l.continues rest →
    l.rule n (w ++ rest) = .ok e rest

/-- The rule of the level comes to the expression as a left operand, with as many further operands
to spare as there are tokens left. -/
def Resumes (l : Level) (w : List Token) (e : Expr) : Prop :=
  ∀ {n : Nat} {rest : List Token}, w.length ≤ n + 1 → NoneNext l.tighter.continues rest →
    ∃ m, n + 2 ≤ m + w.length ∧
      l.rule n (w ++ rest) = chainFrom (l.tighter.rule n) l.isOperator l.combine m e rest

theorem Resumes.accepts {l : Level} (hl : l.isChain = true) {w : List Token} {e : Expr}
    (h : Resumes l w e) : Accepts l w e := by
  intro n rest hn hr
  obtain ⟨m, _, hm⟩ := h hn (Level.noneNext_tighter hr)
  rw [hm]
  exact chainFrom_noneNext (Level.noneNext_isOperator hl hr)

theorem resumes_of_tighter {l : Level} (hl : l.isChain = true) {w : List Token} {e : Expr} (hw : w ≠ [])
    (h : Accepts l.tighter w e) : Resumes l w e := by
  intro n rest hn hr
  have hp := List.length_pos_iff.2 hw
  refine ⟨n + 1, by omega, ?_⟩
  rw [Level.rule_of_isChain n hl, chain_of_eq_ok (h hn hr)]

theorem Resumes.operation {l : Level} (hl : l.isChain = true) {op : Token} {v w : List Token}
    {a b : Expr} (ha : Resumes l v a) (ho : l.isOperator op.kind = true) (hb : Accepts l.tighter w b) :
    Resumes l (v ++ op :: w) (l.combine a op b) := by
  intro n rest hn hr
  simp only [List.length_append, List.length_cons] at hn
  have hop : NoneNext l.tighter.continues (op :: (w ++ rest)) :=
    noneNext_cons.2 (Level.not_tighter_continues hl ho)
  obtain ⟨m, hm, h⟩ := ha (n := n) (by omega) hop
  obtain ⟨m, rfl⟩ : ∃ m', m = m' + 1 := ⟨m - 1, by omega⟩
  refine ⟨m, by simp only [List.length_append, List.length_cons]; omega, ?_⟩
  rw [List.append_assoc, List.cons_append, h, chainFrom_operator ho (hb (by omega) hr)]

def Assigns (w : List Token) (e : Expr) : Prop :=
  ∀ {n m : Nat} {rest : List Token}, w.length ≤ n + 1 → w.length ≤ m →
    NoneNext Level.assignment.continues rest → assignment (Level.disjunction.rule n) m (w ++ rest) =
      .ok e rest

theorem Assigns.accepts {w : List Token} {e : Expr} (h : Assigns w e) : Accepts .assignment w e :=
  fun hn hr => h hn hn hr

theorem assigns_of_tighter {w : List Token} {e : Expr} (hw : w ≠ []) (h : Accepts .disjunction w e) :
    Assigns w e := by
  intro n m rest hn hm hr
  obtain ⟨m, rfl⟩ : ∃ m', m = m' + 1 := ⟨m - 1, by have := List.length_pos_iff.2 hw; omega⟩
  refine assignment_succ_eq_ok.2 (.inl ⟨h hn (Level.noneNext_tighter (l := .assignment) hr), ?_⟩)
  intro t ht
  have hc := hr t ht
  simp only [beq_eq_false_iff_ne]
  intro hk
  rw [hk] at hc
  exact absurd hc (by decide)

theorem Assigns.assign {target equals : Token} {w : List Token} {e : Expr}
    (hn : Accepts .disjunction [target] (.name target)) (hq : equals.kind = .equal) (h : Assigns w e) :
    Assigns (target :: equals :: w) (.assign target e) := by
  intro n m rest hl hm hr
  simp only [List.length_cons] at hl hm
  obtain ⟨m, rfl⟩ : ∃ m', m = m' + 1 := ⟨m - 1, by omega⟩
  have ht : Level.disjunction.rule n (target :: equals :: (w ++ rest)) =
      .ok (.name target) (equals :: (w ++ rest)) :=
    hn (by simp) (noneNext_cons.2 (by rw [hq]; decide))
  exact assignment_succ_eq_ok.2
    (.inr ⟨target, equals, w ++ rest, e, ht, hq, h (by omega) (by omega) hr, rfl⟩)

/-- All that the rule of a level does with an expression of it. -/
structure Found (l : Level) (w : List Token) (e : Expr) : Prop where
  accepts : Accepts l w e
  resumes : l.isChain = true → Resumes l w e
  assigns : l = .assignment → Assigns w e

theorem Found.ofAccepts {l : Level} {w : List Token} {e : Expr} (hc : l.isChain = false)
    (ha : l ≠ .assignment) (h : Accepts l w e) : Found l w e :=
  ⟨h, fun hl => by simp [hl] at hc, fun hl => absurd hl ha⟩

theorem Found.ofResumes {l : Level} {w : List Token} {e : Expr} (hl : l.isChain = true)
    (h : Resumes l w e) : Found l w e :=
  ⟨h.accepts hl, fun _ => h, by rintro rfl; simp [Level.isChain] at hl⟩

theorem Found.ofAssigns {w : List Token} {e : Expr} (h : Assigns w e) : Found .assignment w e :=
  ⟨h.accepts, by simp [Level.isChain], fun _ => h⟩

theorem accepts_unary_of_primary {w : List Token} {e : Expr} (hw : Reads .primary w e)
    (h : Accepts .primary w e) : Accepts .unary w e := by
  intro n rest hn hr
  have hp := h hn (Level.noneNext_tighter (l := .unary) hr)
  obtain ⟨t, ts, rfl, _, hu⟩ := hw.starts
  exact unary_cons_eq_ok.2 (.inr ⟨hu rfl, hp⟩)

theorem Found.ofTighter {l : Level} {w : List Token} {e : Expr} (hw : Reads l.tighter w e)
    (h : Found l.tighter w e) : Found l w e := by
  obtain ⟨t, ts, hts, _⟩ := hw.starts
  have hne : w ≠ [] := by simp [hts]
  cases l with
  | primary => exact h
  | unary => exact .ofAccepts rfl (by simp) (accepts_unary_of_primary hw h.accepts)
  | assignment => exact .ofAssigns (assigns_of_tighter hne h.accepts)
  | comma | disjunction | conjunction | equality | comparison | term | factor =>
    exact .ofResumes rfl (resumes_of_tighter rfl hne h.accepts)

theorem accepts_grouping {opening closing : Token} {w : List Token} {e : Expr}
    (ho : opening.kind = .leftParen) (hc : closing.kind = .rightParen) (h : Accepts .comma w e) :
    Accepts .primary (opening :: w ++ [closing]) (.grouping e) := by
  intro n rest hn _
  simp only [List.cons_append, List.length_cons, List.length_append, List.length_nil] at hn
  obtain ⟨n, rfl⟩ : ∃ n', n = n' + 1 := ⟨n - 1, by omega⟩
  have hi : expression (n + 1) (w ++ closing :: rest) = .ok e (closing :: rest) :=
    h (by omega) (noneNext_cons.2 (by rw [hc]; decide))
  rw [List.append_assoc, List.cons_append, List.singleton_append]
  exact primary_cons_eq_ok.2 (.inr (.inr ⟨ho, grouping_eq_ok.2 ⟨e, closing, hi, hc, rfl⟩⟩))

theorem accepts_name {t : Token} (h : t.kind = .identifier) : Accepts .primary [t] (.name t) :=
  fun _ _ => primary_cons_eq_ok.2 (.inr (.inl ⟨h, rfl, rfl⟩))

theorem found_name {t : Token} (h : t.kind = .identifier) : Found .disjunction [t] (.name t) := by
  have hd : Reads .disjunction [t] (.name t) ∧ Found .disjunction [t] (.name t) :=
    Level.looser_induction (P := fun l => Reads l [t] (.name t) ∧ Found l [t] (.name t))
      (fun _ hl => ⟨.tighter hl.1, .ofTighter hl.1 hl.2⟩) (m := .primary) (by decide)
      ⟨.name h, .ofAccepts rfl (by simp) (accepts_name h)⟩
  exact hd.2

theorem Reads.found {l : Level} {w : List Token} {e : Expr} (h : Reads l w e) : Found l w e := by
  induction h with
  | @literal t v h =>
    exact .ofAccepts rfl (by simp) fun _ _ => primary_cons_eq_ok.2 (.inl ⟨v, h, rfl, rfl⟩)
  | name h => exact .ofAccepts rfl (by simp) (accepts_name h)
  | grouping ho _ hc ih => exact .ofAccepts rfl (by simp) (accepts_grouping ho hc ih.accepts)
  | @unary op w e ho _ ih =>
    refine .ofAccepts rfl (by simp) fun {n rest} hn hr => unary_cons_eq_ok.2 (.inl ⟨ho, e, ?_, rfl⟩)
    exact ih.accepts (by simp only [List.length_cons] at hn; omega) hr
  | assign ht hq _ ih =>
    exact Found.ofAssigns (Assigns.assign (found_name ht).accepts hq (ih.assigns rfl))
  | operation hl _ ho _ iha ihb =>
    exact .ofResumes hl (Resumes.operation hl (iha.resumes hl) ho ihb.accepts)
  | tighter h ih => exact .ofTighter h ih

theorem Reads.noneNext {l : Level} {w : List Token} {e : Expr} (h : Reads l w e) {kinds : Kind → Bool}
    (hk : ∀ k, startsExpression k = true → kinds k = false) (rest : List Token) :
    NoneNext kinds (w ++ rest) := by
  obtain ⟨t, ts, rfl, ht, _⟩ := h.starts
  exact noneNext_cons.2 (hk _ ht)

section Statements

variable {n : Nat} {w rest : List Token}

theorem expression_accepts {e : Expr} (h : Reads .comma w e) (hn : w.length ≤ n)
    (hr : NoneNext Level.comma.continues rest) : expression n (w ++ rest) = .ok e rest := by
  obtain ⟨t, ts, rfl, _⟩ := h.starts
  obtain ⟨n, rfl⟩ : ∃ n', n = n' + 1 := ⟨n - 1, by simp only [List.length_cons] at hn; omega⟩
  exact h.found.accepts hn hr

theorem expression_accepts_before {e : Expr} {t : Token} (h : Reads .comma w e) (hn : w.length ≤ n)
    (ht : t.kind = .semicolon ∨ t.kind = .rightParen) :
    expression n (w ++ t :: rest) = .ok e (t :: rest) := by
  apply expression_accepts h hn
  apply noneNext_cons.2
  obtain ht | ht := ht <;> rw [ht] <;> decide

theorem declaration_accepts {s : Stmt} (h : ReadsDeclaration w s) (hn : w.length ≤ n) :
    declaration (expression n) (w ++ rest) = .ok s rest := by
  cases h with
  | @plain name semi hi hs =>
    exact declaration_eq_ok.2 ⟨name, semi :: rest, rfl, hi, .inl ⟨semi, rfl, hs, rfl⟩⟩
  | @valued name equals semi w e hi hq h hs =>
    simp only [List.cons_append, List.length_cons, List.length_append] at hn
    refine declaration_eq_ok.2 ⟨name, equals :: (w ++ semi :: rest), by simp, hi, .inr ?_⟩
    exact ⟨equals, _, e, semi, rfl, hq, expression_accepts_before h (by omega) (.inl hs), hs, rfl⟩

theorem firstClause_accepts {first : Option Stmt} (h : ReadsFirst w first) (hn : w.length ≤ n) :
    firstClause (expression n) (w ++ rest) = .ok first rest := by
  cases h with
  | @none semi hs => exact firstClause_eq_ok.2 (.inl ⟨semi, rfl, hs, rfl⟩)
  | @declaration var w s hv h =>
    simp only [List.length_cons] at hn
    exact firstClause_eq_ok.2
      (.inr (.inl ⟨var, w ++ rest, s, rfl, hv, declaration_accepts h (by omega), rfl⟩))
  | @expression semi w e h hs =>
    simp only [List.length_append] at hn
    rw [List.append_assoc, List.singleton_append]
    refine firstClause_eq_ok.2 (.inr (.inr ⟨h.noneNext ?_ _, _, expressionStatement_eq_ok.2 ?_, rfl⟩))
    · intro k
      cases k <;> simp [startsExpression, isUnary]
    · exact ⟨e, semi, expression_accepts_before h (by omega) (.inl hs), hs, rfl⟩

theorem unlessNext_accepts {kind : Kind} {t : Token} {clause : Option Expr} (h : ReadsClause w clause)
    (hn : w.length ≤ n) (ht : t.kind = kind) (hk : kind = .semicolon ∨ kind = .rightParen) :
    unlessNext kind (expression n) (w ++ t :: rest) = .ok clause (t :: rest) := by
  cases h with
  | none => exact unlessNext_eq_none.2 ⟨rfl, t, rfl, ht⟩
  | some h =>
    refine unlessNext_eq_some.2 ⟨h.noneNext ?_ _, expression_accepts_before h hn (by rwa [ht])⟩
    obtain rfl | rfl := hk <;> intro k <;> cases k <;> simp [startsExpression, isUnary]

def startsPhrase (k : Kind) : Bool :=
  startsExpression k || [.kwFor, .kwIf, .kwPrint, .kwWhile, .leftBrace].contains k

theorem ReadsPhrase.starts {isOpen : Bool} {s : Stmt} (h : ReadsPhrase w (.statement isOpen s)) :
    ∃ t ts, w = t :: ts ∧ startsPhrase t.kind = true := by
  cases h with
  | @expression w semi e h _ =>
    obtain ⟨t, ts, rfl, ht, _⟩ := h.starts
    exact ⟨t, ts ++ [semi], rfl, by simp [startsPhrase, ht]⟩
  | print hk | block hk | ifThen hk | ifElse hk | whileLoop hk | forLoop hk =>
    exact ⟨_, _, rfl, by rw [hk]; decide⟩

theorem ReadsPhrase.ne_nil {s : Stmt} {ss : List Stmt} (h : ReadsPhrase w (.items (s :: ss))) :
    w ≠ [] := by
  cases h with
  | declaration => simp
  | statement h =>
    obtain ⟨t, ts, rfl, _⟩ := h.starts
    simp

theorem ReadsPhrase.noneNext_of_items {ss : List Stmt} (h : ReadsPhrase w (.items ss)) {kind : Kind}
    (hk : kind = .kwElse ∨ kind = .rightBrace) (hr : NoneNext (· == kind) rest) :
    NoneNext (· == kind) (w ++ rest) := by
  cases h with
  | nil => exact hr
  | declaration hv =>
    apply noneNext_cons.2
    obtain rfl | rfl := hk <;> rw [hv] <;> decide
  | statement h =>
    obtain ⟨t, ts, rfl, ht⟩ := h.starts
    apply noneNext_cons.2
    obtain rfl | rfl := hk <;> cases hkt : t.kind <;> rw [hkt] at ht <;> revert ht <;> decide

/-- The statement is found where no `else` is left that would belong to it. -/
def AcceptsStatement (w : List Token) (isOpen : Bool) (s : Stmt) : Prop :=
  ∀ {n : Nat} {rest : List Token}, w.length ≤ n → (isOpen = true → NoneNext (· == .kwElse) rest) →
    statement n (w ++ rest) = .ok s rest

/-- The list is found in a block and in a program, where it leaves enough rounds for what follows.
-/
structure AcceptsItems (w : List Token) (ss : List Stmt) : Prop where
  inBlock : ∀ {n m : Nat} {closing : Token} {rest : List Token}, w.length ≤ n → w.length ≤ m →
    closing.kind = .rightBrace →
    blockBody (expression n) (statement n) m (w ++ closing :: rest) = .ok ss rest
  inProgram : ∀ {stop : Token} {n : Nat} {rest : List Token}, (w ++ rest).length ≤ n →
    NoneNext (· == .kwElse) rest →
    ∃ m, rest.length ≤ m ∧ program stop n (w ++ rest) = ss.map .ok ++ program stop m rest

def AcceptsPhrase (w : List Token) : Phrase → Prop
  | .statement isOpen s => AcceptsStatement w isOpen s
  | .items ss => AcceptsItems w ss

theorem acceptsStatement_ifThen {kw opening closing : Token} {v w : List Token} {c : Expr}
    {isOpen : Bool} {s : Stmt} (hk : kw.kind = .kwIf) (ho : opening.kind = .leftParen)
    (he : Reads .comma v c) (hc : closing.kind = .rightParen) (h : AcceptsStatement w isOpen s) :
    AcceptsStatement (kw :: opening :: v ++ closing :: w) true (.ifThen c s) := by
  intro n rest hn hr
  simp only [List.length_append, List.length_cons] at hn
  obtain ⟨n, rfl⟩ : ∃ n', n = n' + 1 := ⟨n - 1, by omega⟩
  have hv : expression n (v ++ closing :: (w ++ rest)) = .ok c (closing :: (w ++ rest)) :=
    expression_accepts_before he (by omega) (.inr hc)
  have hw : statement n (w ++ rest) = .ok s rest := h (by omega) fun _ => hr rfl
  simp only [List.cons_append, List.append_assoc]
  refine statement_cons_eq_ok.2 (.inr (.inl ⟨hk, conditional_eq_ok.2 ?_⟩))
  exact ⟨opening, _, c, closing, _, s, rest, rfl, ho, hv, hc, hw, .inl ⟨hr rfl, rfl, rfl⟩⟩

theorem acceptsStatement_ifElse {kw opening closing other : Token} {v w w' : List Token} {c : Expr}
    {isOpen : Bool} {s s' : Stmt} (hk : kw.kind = .kwIf) (ho : opening.kind = .leftParen)
    (he : Reads .comma v c) (hc : closing.kind = .rightParen) (h : AcceptsStatement w false s)
    (hl : other.kind = .kwElse) (h' : AcceptsStatement w' isOpen s') :
    AcceptsStatement (kw :: opening :: v ++ closing :: (w ++ other :: w')) isOpen (.ifElse c s s') := by
  intro n rest hn hr
  simp only [List.length_append, List.length_cons] at hn
  obtain ⟨n, rfl⟩ : ∃ n', n = n' + 1 := ⟨n - 1, by omega⟩
  have hv : expression n (v ++ closing :: (w ++ other :: (w' ++ rest))) =
      .ok c (closing :: (w ++ other :: (w' ++ rest))) :=
        expression_accepts_before he (by omega) (.inr hc)
  have hw : statement n (w ++ other :: (w' ++ rest)) = .ok s (other :: (w' ++ rest)) :=
    h (by omega) (by simp)
  have hw' : statement n (w' ++ rest) = .ok s' rest := h' (by omega) hr
  simp only [List.cons_append, List.append_assoc]
  refine statement_cons_eq_ok.2 (.inr (.inl ⟨hk, conditional_eq_ok.2 ?_⟩))
  exact ⟨opening, _, c, closing, _, s, _, rfl, ho, hv, hc, hw, .inr ⟨other, _, s', rfl, hl, hw', rfl⟩⟩

theorem acceptsStatement_whileLoop {kw opening closing : Token} {v w : List Token} {c : Expr}
    {isOpen : Bool} {s : Stmt} (hk : kw.kind = .kwWhile) (ho : opening.kind = .leftParen)
    (he : Reads .comma v c) (hc : closing.kind = .rightParen) (h : AcceptsStatement w isOpen s) :
    AcceptsStatement (kw :: opening :: v ++ closing :: w) isOpen (.whileLoop c s) := by
  intro n rest hn hr
  simp only [List.length_append, List.length_cons] at hn
  obtain ⟨n, rfl⟩ : ∃ n', n = n' + 1 := ⟨n - 1, by omega⟩
  have hv : expression n (v ++ closing :: (w ++ rest)) = .ok c (closing :: (w ++ rest)) :=
    expression_accepts_before he (by omega) (.inr hc)
  have hw : statement n (w ++ rest) = .ok s rest := h (by omega) hr
  simp only [List.cons_append, List.append_assoc]
  refine statement_cons_eq_ok.2 (.inr (.inr (.inr (.inl ⟨hk, whileLoop_eq_ok.2 ?_⟩))))
  exact ⟨opening, _, c, closing, _, s, rfl, ho, hv, hc, hw, rfl⟩

theorem acceptsStatement_forLoop {kw opening semi closing : Token} {u v v' w : List Token}
    {first : Option Stmt} {condition step : Option Expr} {isOpen : Bool} {s : Stmt}
    (hk : kw.kind = .kwFor) (ho : opening.kind = .leftParen) (hf : ReadsFirst u first)
    (he : ReadsClause v condition) (hs : semi.kind = .semicolon) (hp : ReadsClause v' step)
    (hc : closing.kind = .rightParen) (h : AcceptsStatement w isOpen s) :
    AcceptsStatement (kw :: opening :: u ++ v ++ semi :: v' ++ closing :: w) isOpen
      (.forLoop first condition step s) := by
  intro n rest hn hr
  simp only [List.length_append, List.length_cons] at hn
  obtain ⟨n, rfl⟩ : ∃ n', n = n' + 1 := ⟨n - 1, by omega⟩
  have hu : firstClause (expression n) (u ++ (v ++ semi :: (v' ++ closing :: (w ++ rest)))) =
      .ok first (v ++ semi :: (v' ++ closing :: (w ++ rest))) := firstClause_accepts hf (by omega)
  have hv : unlessNext .semicolon (expression n) (v ++ semi :: (v' ++ closing :: (w ++ rest))) =
      .ok condition (semi :: (v' ++ closing :: (w ++ rest))) :=
    unlessNext_accepts he (by omega) hs (.inl rfl)
  have hv' : unlessNext .rightParen (expression n) (v' ++ closing :: (w ++ rest)) =
      .ok step (closing :: (w ++ rest)) := unlessNext_accepts hp (by omega) hc (.inr rfl)
  have hw : statement n (w ++ rest) = .ok s rest := h (by omega) hr
  simp only [List.cons_append, List.append_assoc]
  refine statement_cons_eq_ok.2 (.inl ⟨hk, forLoop_eq_ok.2 ?_⟩)
  exact ⟨opening, _, first, _, condition, semi, _, step, closing, _, s, rfl, ho, hu, hv, hs, hv', hc,
    hw, rfl⟩

theorem acceptsStatement_expression {semi : Token} {e : Expr} (h : Reads .comma w e)
    (hs : semi.kind = .semicolon) : AcceptsStatement (w ++ [semi]) false (.expression e) := by
  intro n rest hn _
  simp only [List.length_append, List.length_cons] at hn
  obtain ⟨n, rfl⟩ : ∃ n', n = n' + 1 := ⟨n - 1, by omega⟩
  have he : expression (n + 1) (w ++ semi :: rest) = .ok e (semi :: rest) :=
    expression_accepts_before h (by omega) (.inl hs)
  obtain ⟨t, ts, rfl, ht, _⟩ := h.starts
  rw [List.append_assoc, List.singleton_append]
  have hk : t.kind ∉ [Kind.kwFor, .kwIf, .kwPrint, .kwWhile, .leftBrace] := by
    cases hkt : t.kind <;> rw [hkt] at ht <;> revert ht <;> decide
  exact statement_cons_eq_ok.2 (.inr (.inr (.inr (.inr (.inr
    ⟨hk, expressionStatement_eq_ok.2 ⟨e, semi, he, hs, rfl⟩⟩)))))

theorem acceptsStatement_print {print semi : Token} {e : Expr} (hp : print.kind = .kwPrint)
    (h : Reads .comma w e) (hs : semi.kind = .semicolon) :
    AcceptsStatement (print :: w ++ [semi]) false (.print e) := by
  intro n rest hn _
  simp only [List.cons_append, List.length_append, List.length_cons] at hn
  obtain ⟨n, rfl⟩ : ∃ n', n = n' + 1 := ⟨n - 1, by omega⟩
  have he : expression n (w ++ semi :: rest) = .ok e (semi :: rest) :=
    expression_accepts_before h (by omega) (.inl hs)
  rw [List.append_assoc, List.singleton_append]
  exact statement_cons_eq_ok.2 (.inr (.inr (.inl ⟨hp, printing_eq_ok.2 ⟨e, semi, he, hs, rfl⟩⟩)))

theorem acceptsStatement_block {opening closing : Token} {ss : List Stmt}
    (ho : opening.kind = .leftBrace) (h : AcceptsItems w ss) (hc : closing.kind = .rightBrace) :
    AcceptsStatement (opening :: w ++ [closing]) false (.block ss) := by
  intro n rest hn _
  simp only [List.cons_append, List.length_append, List.length_cons] at hn
  obtain ⟨n, rfl⟩ : ∃ n', n = n' + 1 := ⟨n - 1, by omega⟩
  have hb : blockBody (expression n) (statement n) n (w ++ closing :: rest) = .ok ss rest :=
    h.inBlock (by omega) (by omega) hc
  rw [List.append_assoc, List.singleton_append]
  exact statement_cons_eq_ok.2 (.inr (.inr (.inr (.inr (.inl ⟨ho, ss, hb, rfl⟩)))))

theorem acceptsItems_nil : AcceptsItems [] [] where
  inBlock {n m closing rest} _ _ hc := by
    cases m with
    | zero => exact blockBody_zero_eq_ok.2 ⟨closing, rfl, hc, rfl⟩
    | succ m => exact blockBody_cons_eq_ok.2 (.inl ⟨hc, rfl, rfl⟩)
  inProgram {stop n rest} hn _ := ⟨n, hn, rfl⟩

theorem AcceptsItems.cons {t : Token} {us w : List Token} {s : Stmt} {ss : List Stmt}
    (hw : ReadsPhrase w (.items ss)) (h : AcceptsItems w ss) (ht : t.kind ≠ .rightBrace)
    (hi : ∀ {n m : Nat} {rest : List Token}, us.length ≤ n → us.length < m →
      NoneNext (· == .kwElse) rest →
      item (expression n) (statement m) (t :: (us ++ rest)) = .ok s rest) :
    AcceptsItems (t :: us ++ w) (s :: ss) where
  inBlock {n m closing rest} hn hm hc := by
    simp only [List.cons_append, List.length_append, List.length_cons] at hn hm
    obtain ⟨m, rfl⟩ : ∃ m', m = m' + 1 := ⟨m - 1, by omega⟩
    have hr : NoneNext (· == .kwElse) (closing :: rest) := noneNext_cons.2 (by rw [hc]; decide)
    have hs := hi (n := n) (m := n) (by omega) (by omega) (hw.noneNext_of_items (.inl rfl) hr)
    have hb : blockBody (expression n) (statement n) m (w ++ closing :: rest) = .ok ss rest :=
      h.inBlock (by omega) (by omega) hc
    simp only [List.cons_append, List.append_assoc]
    exact blockBody_cons_eq_ok.2 (.inr ⟨ht, s, _, ss, hs, hb, rfl⟩)
  inProgram {stop n rest} hn hr := by
    simp only [List.cons_append, List.length_append, List.length_cons] at hn
    obtain ⟨n, rfl⟩ : ∃ n', n = n' + 1 := ⟨n - 1, by omega⟩
    have hs := hi (n := n) (m := n + 1) (by omega) (by omega) (hw.noneNext_of_items (.inl rfl) hr)
    have hl : (w ++ rest).length ≤ n := by
      simp only [List.length_append]
      omega
    obtain ⟨m, hm, hp⟩ : ∃ m, rest.length ≤ m ∧
        program stop n (w ++ rest) = ss.map .ok ++ program stop m rest :=
      h.inProgram hl hr
    refine ⟨m, hm, ?_⟩
    simp only [List.cons_append, List.append_assoc, program, hs, hp, List.map_cons]

theorem ReadsPhrase.accepts {p : Phrase} (h : ReadsPhrase w p) : AcceptsPhrase w p := by
  induction h with
  | expression h hs => exact acceptsStatement_expression h hs
  | print hp h hs => exact acceptsStatement_print hp h hs
  | block ho _ hc ih => exact acceptsStatement_block ho ih hc
  | ifThen hk ho he hc _ ih => exact acceptsStatement_ifThen hk ho he hc ih
  | ifElse hk ho he hc _ hl _ ih ih' => exact acceptsStatement_ifElse hk ho he hc ih hl ih'
  | whileLoop hk ho he hc _ ih => exact acceptsStatement_whileLoop hk ho he hc ih
  | forLoop hk ho hf he hs hp hc _ ih => exact acceptsStatement_forLoop hk ho hf he hs hp hc ih
  | nil => exact acceptsItems_nil
  | declaration hv h h' ih =>
    refine ih.cons h' (by rw [hv]; decide) fun hn _ _ => ?_
    exact item_cons_eq_ok.2 (.inl ⟨hv, declaration_accepts h hn⟩)
  | @statement w w' isOpen s ss h h' ih ih' =>
    obtain ⟨t, ts, rfl, ht⟩ := h.starts
    have hk : t.kind ≠ .rightBrace ∧ t.kind ≠ .kwVar := by
      cases hkt : t.kind <;> rw [hkt] at ht <;> revert ht <;> decide
    refine ih'.cons h' hk.1 fun _ hm hr => ?_
    exact item_cons_eq_ok.2 (.inr ⟨hk.2, ih hm fun _ => hr⟩)

theorem ReadsPhrase.program_eq {stop : Token} {ss : List Stmt} (h : ReadsPhrase w (.items ss)) :
    program stop w.length w = ss.map .ok := by
  have hi : AcceptsItems w ss := h.accepts
  obtain ⟨m, _, hp⟩ :
      ∃ m, 0 ≤ m ∧ program stop w.length (w ++ []) = ss.map .ok ++ program stop m [] :=
    hi.inProgram (by simp) Rule.noneNext_nil
  have hm : program stop m [] = [] := by cases m <;> rfl
  rwa [List.append_nil, hm, List.append_nil] at hp

end Statements

end Lox.Grammar
