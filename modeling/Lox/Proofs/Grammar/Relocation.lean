import Lox.Grammar.Program
import Lox.Proofs.Grammar.Passage
import Lox.Proofs.Program.Relocation

namespace Lox

namespace Grammar

variable {place : Int → Int} {α β γ δ : Type}

def Fault.relocate (place : Int → Int) : Fault → Fault
  | unmatched => unmatched
  | expected kind message => expected kind message
  | badTarget equals => badTarget (equals.relocate place)

def Result.relocate (place : Int → Int) (f : α → β) : Result α → Result β
  | ok a rest => ok (f a) (rest.map (Token.relocate place))
  | fail fault rest => fail (fault.relocate place) (rest.map (Token.relocate place))

/-- On other lines `q` does what `p` does, and gives `f` of what `p` gives. -/
def Natural (place : Int → Int) (f : α → β) (p : Rule α) (q : Rule β) : Prop :=
  ∀ ts, q (ts.map (Token.relocate place)) = (p ts).relocate place f

section Rules

variable {f : α → β} {p : Rule α} {q : Rule β}

theorem natural_pure {a : α} {b : β} (h : f a = b) : Natural place f (pure a) (pure b) := fun ts => by
  subst h
  rfl

theorem Natural.bind {g : γ → δ} {r : α → Rule γ} {s : β → Rule δ} (h : Natural place f p q)
    (hr : ∀ a, Natural place g (r a) (s (f a))) : Natural place g (p >>= r) (q >>= s) := by
  intro ts
  rw [Rule.bind_apply, Rule.bind_apply, h ts]
  cases p ts with
  | ok a rest => exact hr a rest
  | fail fault rest => rfl

theorem Natural.map {g : γ → δ} {r : α → γ} {s : β → δ} (h : Natural place f p q)
    (hr : ∀ a, g (r a) = s (f a)) :
    Natural place g (r <$> p) (s <$> q) :=
  h.bind fun a => natural_pure (hr a)

theorem natural_fail (fault : Fault) :
    Natural place f (Rule.fail fault) (Rule.fail (fault.relocate place)) :=
  fun _ => rfl

theorem natural_nextIs (kind : Kind) : Natural place id (Rule.nextIs kind) (Rule.nextIs kind)
  | [] => rfl
  | _ :: _ => rfl

theorem natural_accept (kinds : Kind → Bool) :
    Natural place (Option.map (Token.relocate place)) (Rule.accept kinds) (Rule.accept kinds)
  | [] => rfl
  | t :: ts => by
    by_cases hk : kinds t.kind <;> simp [Rule.accept, Result.relocate, hk]

theorem natural_expect (kind : Kind) (message : String) :
    Natural place (Token.relocate place) (Rule.expect kind message) (Rule.expect kind message)
  | [] => rfl
  | t :: ts => by
    by_cases hk : t.kind = kind <;> simp [Rule.expect, Result.relocate, Fault.relocate, hk]

theorem Natural.unlessNext (h : Natural place f p q) (kind : Kind) :
    Natural place (Option.map f) (Rule.unlessNext kind p) (Rule.unlessNext kind q) :=
  (natural_nextIs kind).bind fun
    | true => natural_pure rfl
    | false => h.map fun _ => rfl

end Rules

section Expressions

variable {p : Rule Expr}

theorem natural_grouping (h : Natural place (Expr.relocate place) p p) :
    Natural place (Expr.relocate place) (grouping p) (grouping p) :=
  h.bind fun _ => (natural_expect _ _).bind fun _ => natural_pure rfl

theorem natural_primary (h : Natural place (Expr.relocate place) p p) :
    Natural place (Expr.relocate place) (primary p) (primary p)
  | [] => rfl
  | ⟨kind, lexeme, literal, line⟩ :: ts => by
    cases kind with
    | leftParen => exact natural_grouping h ts
    | _ => rfl

theorem natural_unary (h : Natural place (Expr.relocate place) p p) :
    Natural place (Expr.relocate place) (unary p) (unary p) := by
  intro ts
  induction ts with
  | nil => rfl
  | cons t ts ih =>
    have hp := natural_primary h (t :: ts)
    simp only [List.map_cons] at hp
    simp only [List.map_cons, unary, Token.relocate_kind, ih]
    split
    · cases unary p ts <;> rfl
    · exact hp

def Uniform (place : Int → Int) (combine : Expr → Token → Expr → Expr) : Prop :=
  ∀ a t b, (combine a t b).relocate place =
    combine (a.relocate place) (t.relocate place) (b.relocate place)

theorem uniform_binary : Uniform place .binary := fun _ _ _ => rfl

theorem uniform_logical : Uniform place .logical := fun _ _ _ => rfl

section Chain

variable {isOperator : Kind → Bool} {combine : Expr → Token → Expr → Expr}

theorem natural_chainFrom (hc : Uniform place combine) (h : Natural place (Expr.relocate place) p p)
    (n : Nat) (left : Expr) :
    Natural place (Expr.relocate place) (chainFrom p isOperator combine n left)
      (chainFrom p isOperator combine n (left.relocate place)) := by
  induction n generalizing left with
  | zero => exact natural_pure rfl
  | succ n ih =>
    refine (natural_accept isOperator).bind fun
      | none => natural_pure rfl
      | some operator => h.bind fun right => ?_
    have hn := ih (combine left operator right)
    rwa [hc] at hn

theorem natural_chain (hc : Uniform place combine) (h : Natural place (Expr.relocate place) p p)
    (n : Nat) :
    Natural place (Expr.relocate place) (chain p isOperator combine n) (chain p isOperator combine n) :=
  h.bind fun left => natural_chainFrom hc h n left

end Chain

theorem natural_disjunction (h : Natural place (Expr.relocate place) p p) (n : Nat) :
    Natural place (Expr.relocate place) (disjunction n p) (disjunction n p) := by
  have hf : Natural place (Expr.relocate place) (factor n p) (factor n p) :=
    natural_chain uniform_binary (natural_unary h) n
  have ht : Natural place (Expr.relocate place) (term n p) (term n p) :=
    natural_chain uniform_binary hf n
  have hc : Natural place (Expr.relocate place) (comparison n p) (comparison n p) :=
    natural_chain uniform_binary ht n
  have he : Natural place (Expr.relocate place) (equality n p) (equality n p) :=
    natural_chain uniform_binary hc n
  have hj : Natural place (Expr.relocate place) (conjunction n p) (conjunction n p) :=
    natural_chain uniform_logical he n
  exact natural_chain uniform_logical hj n

theorem natural_assignment (h : Natural place (Expr.relocate place) p p) (n : Nat) :
    Natural place (Expr.relocate place) (assignment p n) (assignment p n) := by
  induction n with
  | zero => exact h
  | succ n ih =>
    refine h.bind fun left => (natural_accept _).bind fun
      | none => natural_pure rfl
      | some equals => ih.bind fun right => ?_
    cases left with
    | name target => exact natural_pure rfl
    | _ => exact natural_fail (.badTarget equals)

theorem natural_expression (n : Nat) :
    Natural place (Expr.relocate place) (expression n) (expression n) := by
  induction n with
  | zero => exact natural_fail .unmatched
  | succ n ih =>
    have hl : Uniform place fun _ _ e => e := fun _ _ _ => rfl
    exact natural_chain hl (natural_assignment (natural_disjunction ih (n + 1)) (n + 1)) (n + 1)

end Expressions

section Statements

variable {expr : Rule Expr} {stmt : Rule Stmt} (he : Natural place (Expr.relocate place) expr expr)
  (hs : Natural place (Stmt.relocate place) stmt stmt)

include he

theorem natural_declaration :
    Natural place (Stmt.relocate place) (declaration expr) (declaration expr) := by
  have hn : Natural place (Expr.relocate place) (pure (.literal .nil)) (pure (.literal .nil)) :=
    natural_pure rfl
  exact (natural_expect _ _).bind fun _ => (natural_accept _).bind fun
    | some _ => he.bind fun _ => (natural_expect _ _).bind fun _ => natural_pure rfl
    | none => hn.bind fun _ => (natural_expect _ _).bind fun _ => natural_pure rfl

theorem natural_printing : Natural place (Stmt.relocate place) (printing expr) (printing expr) :=
  he.bind fun _ => (natural_expect _ _).bind fun _ => natural_pure rfl

theorem natural_expressionStatement :
    Natural place (Stmt.relocate place) (expressionStatement expr) (expressionStatement expr) :=
  he.bind fun _ => (natural_expect _ _).bind fun _ => natural_pure rfl

theorem natural_firstClause :
    Natural place (Option.map (Stmt.relocate place)) (firstClause expr) (firstClause expr) :=
  (natural_accept _).bind fun
    | some _ => natural_pure rfl
    | none => (natural_accept _).bind fun
      | some _ => (natural_declaration he).map fun _ => rfl
      | none => (natural_expressionStatement he).map fun _ => rfl

include hs

theorem natural_conditional :
    Natural place (Stmt.relocate place) (conditional expr stmt) (conditional expr stmt) :=
  (natural_expect _ _).bind fun _ => he.bind fun _ => (natural_expect _ _).bind fun _ => hs.bind fun _ =>
    (natural_accept _).bind fun
      | none => natural_pure rfl
      | some _ => hs.bind fun _ => natural_pure rfl

theorem natural_whileLoop :
    Natural place (Stmt.relocate place) (whileLoop expr stmt) (whileLoop expr stmt) :=
  (natural_expect _ _).bind fun _ => he.bind fun _ => (natural_expect _ _).bind fun _ => hs.bind fun _ =>
    natural_pure rfl

theorem natural_forLoop : Natural place (Stmt.relocate place) (forLoop expr stmt) (forLoop expr stmt) :=
  (natural_expect _ _).bind fun _ => (natural_firstClause he).bind fun _ =>
    (he.unlessNext _).bind fun _ =>
    (natural_expect _ _).bind fun _ => (he.unlessNext _).bind fun _ => (natural_expect _ _).bind fun _ =>
      hs.bind fun _ => natural_pure (Stmt.relocate_forLoop place _ _ _ _)

theorem natural_item : Natural place (Stmt.relocate place) (item expr stmt) (item expr stmt)
  | [] => hs []
  | t :: ts => by
    by_cases hk : t.kind = .kwVar
    · simpa [item, hk] using natural_declaration he ts
    · simpa [item, hk] using hs (t :: ts)

theorem natural_blockBody (n : Nat) :
    Natural place (Stmt.relocateAll place) (blockBody expr stmt n) (blockBody expr stmt n) := by
  have hc : Natural place (Token.relocate place) closing closing := natural_expect _ _
  induction n with
  | zero => exact hc.map fun _ => rfl
  | succ n ih =>
    intro ts
    have hb : Natural place (Stmt.relocateAll place)
        (do let first ← item expr stmt; let others ← blockBody expr stmt n; pure (first :: others))
        (do let first ← item expr stmt; let others ← blockBody expr stmt n; pure (first :: others)) :=
      (natural_item he hs).bind fun _ => ih.bind fun _ => natural_pure rfl
    simp only [blockBody, hc ts]
    cases closing ts with
    | ok _ rest => rfl
    | fail fault rest =>
      cases rest with
      | nil => rfl
      | cons t rest => exact hb ts

end Statements

theorem natural_statement (n : Nat) :
    Natural place (Stmt.relocate place) (statement n) (statement n) := by
  induction n with
  | zero => exact natural_fail .unmatched
  | succ n ih =>
    have he : Natural place (Expr.relocate place) (expression n) (expression n) := natural_expression n
    intro ts
    match ts with
    | [] => rfl
    | ⟨kind, lexeme, literal, line⟩ :: ts =>
      cases kind with
      | kwFor => exact natural_forLoop he ih ts
      | kwIf => exact natural_conditional he ih ts
      | kwPrint => exact natural_printing he ts
      | kwWhile => exact natural_whileLoop he ih ts
      | leftBrace =>
        have hb :
            Natural place (Stmt.relocate place) (Stmt.block <$> blockBody (expression n) (statement n) n)
              (Stmt.block <$> blockBody (expression n) (statement n) n) :=
          (natural_blockBody he ih n).map fun _ => rfl
        exact hb ts
      | _ => exact natural_expressionStatement (natural_expression (n + 1)) (_ :: ts)

theorem recover_map (ts : List Token) :
    recover (ts.map (Token.relocate place)) = (recover ts).map (Token.relocate place) := by
  induction ts with
  | nil => rfl
  | cons t ts ih =>
    cases ts with
    | nil => by_cases ht : t.kind = .semicolon <;> simp [recover, ht]
    | cons u us =>
      rw [List.map_cons] at ih
      by_cases ht : t.kind = .semicolon
      · simp [recover, ht]
      · cases hu : startsStatement u.kind with
        | true => simp [recover, ht, hu]
        | false =>
          simp only [List.map_cons, recover, Token.relocate_kind, ht, if_false, hu,
            Bool.false_eq_true, ih]

theorem Fault.toError_relocate (stop : Token) (rest : List Token) (fault : Fault) :
    (fault.relocate place).toError (stop.relocate place) (rest.map (Token.relocate place)) =
      (fault.toError stop rest).relocate place := by
  cases fault <;> cases rest <;> rfl

def outcome (place : Int → Int) : Except SyntaxError Stmt → Except SyntaxError Stmt
  | .ok s => .ok (s.relocate place)
  | .error e => .error (e.relocate place)

theorem program_map (stop : Token) (n : Nat) (ts : List Token) :
    program (stop.relocate place) n (ts.map (Token.relocate place)) =
      (program stop n ts).map (outcome place) := by
  induction n generalizing ts with
  | zero => cases ts <;> rfl
  | succ n ih =>
    cases ts with
    | nil => rfl
    | cons t ts =>
      have hi :
          item (expression n) (statement (n + 1)) (t.relocate place :: ts.map (Token.relocate place)) =
          (item (expression n) (statement (n + 1)) (t :: ts)).relocate place (Stmt.relocate place) :=
        natural_item (natural_expression n) (natural_statement (n + 1)) (t :: ts)
      simp only [List.map_cons, program, hi]
      cases item (expression n) (statement (n + 1)) (t :: ts) with
      | ok s rest => simp only [Result.relocate, List.map_cons, ih, outcome]
      | fail fault rest =>
        simp only [Result.relocate, List.map_cons, recover_map, ih, outcome, Fault.toError_relocate]

end Grammar

def Parse.relocate (place : Int → Int) (p : Parse) : Parse :=
  ⟨p.statements.map (Stmt.relocate place), p.errors.map (SyntaxError.relocate place)⟩

/-- Where there is an end mark, no line is looked at. -/
theorem parse_map {place : Int → Int} {tokens : List Token} (h : ∃ t ∈ tokens, t.kind = .eof) :
    parse (tokens.map (Token.relocate place)) = (parse tokens).relocate place := by
  obtain ⟨body, stop, after, rfl, hb, hs⟩ := exists_stop h
  have hb' : ∀ t ∈ body.map (Token.relocate place), t.kind ≠ .eof := List.forall_mem_map.2 hb
  have hs' : (stop.relocate place).kind = .eof := hs
  have hok : ∀ r, (Grammar.outcome place r).toOption = r.toOption.map (Stmt.relocate place) := by
    intro r
    cases r <;> rfl
  have herror :
      ∀ r, Grammar.error? (Grammar.outcome place r) =
        (Grammar.error? r).map (SyntaxError.relocate place) := by
    intro r
    cases r <;> rfl
  rw [List.map_append, List.map_cons, parse_append_stop hb' hs', parse_append_stop hb hs,
    List.length_map, Grammar.program_map]
  simp only [Parse.relocate, List.filterMap_map, List.map_filterMap, Function.comp_def, hok, herror]

end Lox
