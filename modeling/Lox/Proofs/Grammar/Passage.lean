import Lox.Grammar.Program
import Lox.Proofs.Grammar.Dispatch

namespace Lox

namespace Grammar

def Fault.recalled? : Fault → Option Token
  | badTarget equals => some equals
  | _ => none

theorem Fault.toError_token (stop : Token) (rest : List Token) (fault : Fault) :
    (fault.toError stop rest).token = fault.recalled?.getD (rest.headD stop) := by
  cases fault <;> rfl

/-- What is left are the last of the tokens, and a token that is blamed in retrospect is one of the
others. -/
inductive PassedBy {α : Type} (ts : List Token) : Result α → Prop
  | ok {w rest : List Token} {a : α} (h : ts = w ++ rest) : PassedBy ts (.ok a rest)
  | fail {w rest : List Token} {fault : Fault} (h : ts = w ++ rest) (hw : ∀ t ∈ fault.recalled?, t ∈ w) :
      PassedBy ts (.fail fault rest)

/-- A rule that goes through its tokens from left to right. -/
def Forward {α : Type} (p : Rule α) : Prop := ∀ ts, PassedBy ts (p ts)

section Rules

variable {α β : Type} {p : Rule α} {f : α → Rule β}

theorem PassedBy.after {w rest : List Token} {r : Result β} (h : PassedBy rest r) :
    PassedBy (w ++ rest) r := by
  cases h with
  | ok h => exact .ok (w := w ++ _) (by rw [h, List.append_assoc])
  | fail h hw =>
    exact .fail (w := w ++ _) (by rw [h, List.append_assoc]) fun t ht =>
      List.mem_append_right _ (hw t ht)

theorem PassedBy.cons {t : Token} {ts : List Token} {r : Result β} (h : PassedBy ts r) :
    PassedBy (t :: ts) r :=
  h.after (w := [t])

theorem Forward.bind (hp : Forward p) (hf : ∀ a, Forward (f a)) : Forward (p >>= f) := by
  intro ts
  have h := hp ts
  rw [Rule.bind_apply]
  generalize p ts = r at h
  cases h with
  | ok h =>
    rw [h]
    exact (hf _ _).after
  | fail h hw => exact .fail h hw

theorem forward_pure (a : α) : Forward (pure a : Rule α) := fun _ => .ok (w := []) rfl

theorem Forward.map (hp : Forward p) (g : α → β) : Forward (g <$> p) := hp.bind fun _ => forward_pure _

theorem forward_unmatched : Forward (Rule.fail .unmatched : Rule α) := fun _ => .fail (w := []) rfl nofun

theorem forward_nextIs (kind : Kind) : Forward (Rule.nextIs kind)
  | [] => .ok (w := []) rfl
  | _ :: _ => .ok (w := []) rfl

theorem forward_accept (kinds : Kind → Bool) : Forward (Rule.accept kinds)
  | [] => .ok (w := []) rfl
  | t :: ts => by
    rw [Rule.accept]
    split
    · exact .ok (w := [t]) rfl
    · exact .ok (w := []) rfl

theorem forward_expect (kind : Kind) (message : String) : Forward (Rule.expect kind message)
  | [] => .fail (w := []) rfl nofun
  | t :: ts => by
    rw [Rule.expect]
    split
    · exact .ok (w := [t]) rfl
    · exact .fail (w := []) rfl nofun

theorem Forward.unlessNext (hp : Forward p) (kind : Kind) : Forward (Rule.unlessNext kind p) :=
  (forward_nextIs kind).bind fun
    | true => forward_pure _
    | false => hp.map _

end Rules

section Expressions

variable {p : Rule Expr}

theorem forward_grouping (h : Forward p) : Forward (grouping p) :=
  h.bind fun _ => (forward_expect _ _).bind fun _ => forward_pure _

theorem forward_primary (h : Forward p) : Forward (primary p)
  | [] => .fail (w := []) rfl nofun
  | t :: ts => by
    cases primaryStart t with
    | literal _ ht | name _ ht =>
      rw [ht]
      exact .ok (w := [t]) rfl
    | grouping _ ht =>
      rw [ht]
      exact (forward_grouping h ts).cons
    | none ht =>
      rw [ht p t ts rfl]
      exact .fail (w := []) rfl nofun

theorem forward_unary (h : Forward p) : Forward (unary p) := by
  intro ts
  induction ts with
  | nil => exact forward_primary h []
  | cons t ts ih =>
    rw [unary]
    split
    · generalize unary p ts = r at ih
      cases ih with
      | ok h =>
        rw [h]
        exact .ok (w := t :: _) rfl
      | fail h hw => exact (PassedBy.fail h hw).cons
    · exact forward_primary h (t :: ts)

section Chain

variable {isOperator : Kind → Bool} {combine : Expr → Token → Expr → Expr}

theorem forward_chainFrom (h : Forward p) (n : Nat) (left : Expr) :
    Forward (chainFrom p isOperator combine n left) := by
  induction n generalizing left with
  | zero => exact forward_pure left
  | succ n ih =>
    exact (forward_accept isOperator).bind fun
      | none => forward_pure left
      | some _ => h.bind fun _ => ih _

theorem forward_chain (h : Forward p) (n : Nat) : Forward (chain p isOperator combine n) :=
  h.bind fun left => forward_chainFrom h n left

end Chain

theorem forward_disjunction (h : Forward p) (n : Nat) : Forward (disjunction n p) := by
  have hf : Forward (factor n p) := forward_chain (forward_unary h) n
  have ht : Forward (term n p) := forward_chain hf n
  have hc : Forward (comparison n p) := forward_chain ht n
  have he : Forward (equality n p) := forward_chain hc n
  have hj : Forward (conjunction n p) := forward_chain he n
  exact forward_chain hj n

theorem forward_assignment (h : Forward p) (n : Nat) : Forward (assignment p n) := by
  induction n with
  | zero => exact h
  | succ n ih =>
    refine h.bind fun left ts => ?_
    cases ts with
    | nil => exact forward_pure left []
    | cons equals ts =>
      by_cases hq : equals.kind = .equal
      · have hr := ih ts
        simp only [Rule.bind_apply, Rule.accept, hq, beq_self_eq_true, if_true]
        generalize assignment p n ts = r at hr
        cases hr with
        | ok h =>
          rw [h]
          cases left with
          | name target => exact .ok (w := equals :: _) rfl
          | _ =>
            refine .fail (w := equals :: _) rfl fun t ht => ?_
            cases ht
            exact List.mem_cons_self
        | fail h hw => exact (PassedBy.fail h hw).cons
      · simp only [Rule.bind_apply, Rule.accept, beq_iff_eq, hq, if_false]
        exact forward_pure left (equals :: ts)

theorem forward_expression (n : Nat) : Forward (expression n) := by
  induction n with
  | zero => exact forward_unmatched
  | succ n ih =>
    exact forward_chain (forward_assignment (forward_disjunction ih (n + 1)) (n + 1)) (n + 1)

end Expressions

section Statements

variable {expr : Rule Expr} {stmt : Rule Stmt} (he : Forward expr) (hs : Forward stmt)

include he

theorem forward_declaration : Forward (declaration expr) :=
  (forward_expect _ _).bind fun _ => (forward_accept _).bind fun
    | some _ => he.bind fun _ => (forward_expect _ _).bind fun _ => forward_pure _
    | none => (forward_pure _).bind fun _ => (forward_expect _ _).bind fun _ => forward_pure _

theorem forward_printing : Forward (printing expr) :=
  he.bind fun _ => (forward_expect _ _).bind fun _ => forward_pure _

theorem forward_expressionStatement : Forward (expressionStatement expr) :=
  he.bind fun _ => (forward_expect _ _).bind fun _ => forward_pure _

theorem forward_firstClause : Forward (firstClause expr) :=
  (forward_accept _).bind fun
    | some _ => forward_pure _
    | none => (forward_accept _).bind fun
      | some _ => (forward_declaration he).map _
      | none => (forward_expressionStatement he).map _

include hs

theorem forward_conditional : Forward (conditional expr stmt) :=
  (forward_expect _ _).bind fun _ => he.bind fun _ => (forward_expect _ _).bind fun _ => hs.bind fun _ =>
    (forward_accept _).bind fun
      | none => forward_pure _
      | some _ => hs.bind fun _ => forward_pure _

theorem forward_whileLoop : Forward (whileLoop expr stmt) :=
  (forward_expect _ _).bind fun _ => he.bind fun _ => (forward_expect _ _).bind fun _ => hs.bind fun _ =>
    forward_pure _

theorem forward_forLoop : Forward (forLoop expr stmt) :=
  (forward_expect _ _).bind fun _ => (forward_firstClause he).bind fun _ =>
    (he.unlessNext _).bind fun _ =>
    (forward_expect _ _).bind fun _ => (he.unlessNext _).bind fun _ => (forward_expect _ _).bind fun _ =>
      hs.bind fun _ => forward_pure _

theorem forward_item : Forward (item expr stmt)
  | [] => hs []
  | t :: ts => by
    rw [item]
    split
    · exact (forward_declaration he ts).cons
    · exact hs (t :: ts)

theorem forward_blockBody (n : Nat) : Forward (blockBody expr stmt n) := by
  have hc : Forward closing := forward_expect _ _
  induction n with
  | zero => exact hc.map _
  | succ n ih =>
    intro ts
    have hb : Forward (do
        let first ← item expr stmt
        let others ← blockBody expr stmt n
        pure (first :: others)) :=
      (forward_item he hs).bind fun _ => ih.bind fun _ => forward_pure _
    have h := hc ts
    simp only [blockBody]
    generalize closing ts = r at h
    cases h with
    | ok h => exact .ok h
    | @fail w rest fault h hw =>
      cases rest with
      | nil => exact .fail h hw
      | cons t rest => exact hb ts

end Statements

theorem forward_statement (n : Nat) : Forward (statement n) := by
  induction n with
  | zero => exact forward_unmatched
  | succ n ih =>
    have he : Forward (expression n) := forward_expression n
    intro ts
    match ts with
    | [] => exact .fail (w := []) rfl nofun
    | ⟨kind, lexeme, literal, line⟩ :: ts =>
      cases kind with
      | kwFor => exact (forward_forLoop he ih ts).cons
      | kwIf => exact (forward_conditional he ih ts).cons
      | kwPrint => exact (forward_printing he ts).cons
      | kwWhile => exact (forward_whileLoop he ih ts).cons
      | leftBrace => exact ((forward_blockBody he ih n).map Stmt.block ts).cons
      | _ => exact forward_expressionStatement (forward_expression (n + 1)) (_ :: ts)

theorem recover_suffix (t : Token) (ts : List Token) : recover (t :: ts) <:+ ts := by
  induction ts generalizing t with
  | nil => by_cases ht : t.kind = .semicolon <;> simp [recover, ht]
  | cons u us ih =>
    rw [recover]
    split
    · exact List.suffix_refl _
    · split
      · exact List.suffix_refl _
      · exact (ih u).trans (List.suffix_cons u us)

theorem recover_suffix_self (ts : List Token) : recover ts <:+ ts := by
  cases ts with
  | nil => exact List.suffix_refl _
  | cons t ts => exact (recover_suffix t ts).trans (List.suffix_cons t ts)

theorem blamed_cons_sublist {stop : Token} {w rest blamed : List Token} {fault : Fault}
    (hw : ∀ t ∈ fault.recalled?, t ∈ w) (hb : List.Sublist blamed (recover rest ++ [stop]))
    (hn : rest = [] → blamed = []) :
    List.Sublist ((fault.toError stop rest).token :: blamed) (w ++ (rest ++ [stop])) := by
  rw [Fault.toError_token]
  cases hr : fault.recalled? with
  | some equals =>
    have hrest := hb.trans ((recover_suffix_self rest).sublist.append_right [stop])
    exact (List.singleton_sublist.2 (hw equals hr)).append hrest
  | none =>
    refine List.Sublist.trans ?_ (List.sublist_append_right w _)
    cases rest with
    | nil =>
      rw [hn rfl]
      exact List.Sublist.refl _
    | cons u us => exact (hb.trans ((recover_suffix u us).sublist.append_right [stop])).cons_cons u

theorem program_blamed_sublist (stop : Token) (n : Nat) (ts : List Token) :
    List.Sublist (((program stop n ts).filterMap error?).map SyntaxError.token) (ts ++ [stop]) := by
  have hnil : ∀ n, program stop n [] = [] := fun n => by cases n <;> rfl
  induction n generalizing ts with
  | zero => cases ts <;> exact List.nil_sublist _
  | succ n ih =>
    cases ts with
    | nil => exact List.nil_sublist _
    | cons t ts =>
      have hi := forward_item (forward_expression n) (forward_statement (n + 1)) (t :: ts)
      simp only [program]
      generalize item (expression n) (statement (n + 1)) (t :: ts) = r at hi
      cases hi with
      | @ok w rest s h =>
        rw [h, List.append_assoc]
        exact (ih rest).trans (List.sublist_append_right w _)
      | @fail w rest fault h hw =>
        rw [h, List.append_assoc]
        refine blamed_cons_sublist hw (ih (recover rest)) fun hr => ?_
        rw [hr, recover, hnil]
        rfl

end Grammar

theorem exists_stop {tokens : List Token} (h : ∃ t ∈ tokens, t.kind = .eof) :
    ∃ body stop after, tokens = body ++ stop :: after ∧ (∀ t ∈ body, t.kind ≠ .eof) ∧
      stop.kind = .eof := by
  obtain ⟨stop, hfind⟩ : ∃ stop, tokens.find? Token.isEof = some stop := by
    apply Option.isSome_iff_exists.1
    obtain ⟨t, ht, hk⟩ := h
    exact List.find?_isSome.2 ⟨t, ht, by simp [Token.isEof, hk]⟩
  obtain ⟨hs, body, after, rfl, hb⟩ := List.find?_eq_some_iff_append.1 hfind
  exact ⟨body, stop, after, rfl, fun t ht => by simpa [Token.isEof] using hb t ht,
    by simpa [Token.isEof] using hs⟩

/-- The errors blame tokens one behind the other, the end mark last. -/
theorem parse_blamed_sublist {tokens : List Token} (h : ∃ t ∈ tokens, t.kind = .eof) :
    List.Sublist ((parse tokens).errors.map SyntaxError.token) tokens := by
  obtain ⟨body, stop, after, rfl, hb, hs⟩ := exists_stop h
  rw [parse_append_stop hb hs]
  refine (Grammar.program_blamed_sublist stop body.length body).trans ?_
  exact (List.singleton_sublist.2 List.mem_cons_self).append_left body

end Lox
