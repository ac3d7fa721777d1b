import Lox.Proofs.Grammar.Completeness
import Lox.Proofs.Grammar.Derivation
import Lox.Proofs.Grammar.Prompt
import Lox.Proofs.Grammar.Soundness

namespace Lox.Grammar

open Rule

variable {ι : Type} {bound : ι → Nat} {n : Nat}

theorem Reads.exists (l : Level) : ∃ w e, Reads l w e := by
  have h : Reads .primary [⟨.kwNil, "", .nil, 0⟩] (.literal .nil) := .literal rfl
  exact ⟨_, _, h.looser (show l.rank ≤ 9 by cases l <;> decide)⟩

theorem Reads.length_pos {l : Level} {w : List Token} {e : Expr} (h : Reads l w e) : 0 < w.length := by
  obtain ⟨t, ts, rfl, _⟩ := h.starts
  exact Nat.succ_pos _

def upTo (bound : ι → Nat) (j : ι × Nat) : Nat := min (bound j.1) j.2

theorem upTo_le (bound : ι → Nat) (j : ι × Nat) : upTo bound j ≤ bound j.1 := Nat.min_le_left _ _

theorem le_upTo {l k : Nat} {i : ι} : l ≤ upTo bound (i, k) ↔ l ≤ bound i ∧ l ≤ k := Nat.le_min

theorem exists_succ_of_le_upTo {l k : Nat} {i : ι} (hl : 0 < l) (h : l ≤ upTo bound (i, k)) :
    l ≤ bound i ∧ ∃ k', k = k' + 1 ∧ l ≤ k' + 1 := by
  obtain ⟨hi, hk⟩ := le_upTo.1 h
  exact ⟨hi, k - 1, by omega⟩

section Expressions

variable {expr : Rule Expr} {q : ι → Rule Expr}

theorem prompt_grouping {opening : Token} (ho : opening.kind = .leftParen)
    (h : Prompt n expr bound q (Reads .comma) []) :
    Prompt n (grouping expr) bound (fun i => grouping (q i)) (Reads .primary) [opening] :=
  h.bind fun _ _ he => (prompt_expect _ _).bind fun _ _ ⟨hw, hc⟩ =>
    prompt_pure (by subst hw; exact .grouping ho he hc)

theorem prompt_primary (h : Prompt n expr bound q (Reads .comma) []) :
    Prompt (n + 1) (primary expr) (fun i => bound i + 1) (fun i => primary (q i))
      (Reads .primary) [] where
  run ts hn := by
    have hc : ∃ u e, Reads .primary u e := Reads.exists .primary
    cases ts with
    | nil => exact promptAt_nil (fun _ => rfl) (fun _ => rfl) hc
    | cons t ts =>
      cases primaryStart t with
      | literal hv hp =>
        rw [hp]
        exact .ok (w := [t]) rfl (.literal hv) fun i y _ _ => hp _ y
      | name hk hp =>
        rw [hp]
        exact .ok (w := [t]) rfl (.name hk) fun i y _ _ => hp _ y
      | grouping hk hp =>
        rw [hp]
        refine .cons ((prompt_grouping hk h).run ts (Nat.le_of_succ_le_succ hn)) fun i ys hy => ?_
        exact ⟨i, Nat.le_of_succ_le_succ hy, hp _ ys⟩
      | none hp =>
        rw [hp _ _ _ rfl]
        refine promptAt_fail (fun _ => rfl) (fun i y _ hs e r he => ?_) hc
        obtain ⟨u, us, rfl, hu⟩ := hs.eq_cons
        rw [hp _ _ _ hu] at he
        cases he
  completable := Reads.exists .primary

theorem prompt_unary (h : Prompt n expr bound q (Reads .comma) []) :
    Prompt (n + 1) (unary expr) (fun i => bound i + 1) (fun i => unary (q i)) (Reads .unary) [] where
  run ts hn := by
    have hprimary : ∀ us : List Token, us.length ≤ n + 1 → NoneNext isUnary us →
        PromptAt (fun i => bound i + 1) (fun i => unary (q i)) (Reads .unary) [] us (unary expr us) := by
      intro us hl hu
      rw [unary_of_noneNext hu]
      refine (((prompt_primary h).run us hl).mono fun w e hr => .tighter hr).reindex fun i y hy hs => ?_
      exact ⟨i, hy, unary_of_noneNext (hs.noneNext hu) (q i)⟩
    induction ts with
    | nil => exact hprimary [] hn noneNext_nil
    | cons t ts ih =>
      cases ht : isUnary t.kind with
      | false => exact hprimary (t :: ts) hn (noneNext_cons.2 ht)
      | true =>
        rw [unary_cons_of_isUnary ht]
        have hts : ts.length ≤ n + 1 := Nat.le_of_succ_le hn
        refine .cons (((ih hts).bind hts fun e w he => prompt_pure (n := n + 1) (.unary ht he)))
          fun i ys hy => ?_
        exact ⟨i, Nat.le_of_succ_le hy, unary_cons_of_isUnary ht (q i) ys⟩
  completable := Reads.exists .unary

theorem prompt_chainFrom {l : Level} (hl : l.isChain = true)
    (h : Prompt n expr bound q (Reads l.tighter) []) {m : Nat} {left : Expr} {v : List Token}
    (hv : Reads l v left) :
    Prompt (min n m) (chainFrom expr l.isOperator l.combine m left) (upTo bound)
      (fun j => chainFrom (q j.1) l.isOperator l.combine j.2 left) (Reads l) v := by
  induction m generalizing left v with
  | zero =>
    refine ⟨fun ts hn => ?_, [], left, by simpa using hv⟩
    have hts : ts = [] := List.length_eq_zero_iff.1 (by omega)
    subst hts
    exact .ok (w := []) rfl (by simpa using hv) fun j y _ hs => by
      rw [hs.eq_nil]; exact chainFrom_noneNext noneNext_nil
  | succ m ih =>
    refine ⟨fun ts hn => ?_, [], left, by simpa using hv⟩
    obtain hs | ⟨op, us, rfl, ho⟩ := noneNext_or_eq_cons l.isOperator ts
    · rw [chainFrom_noneNext hs]
      exact .ok (w := []) rfl (by simpa using hv) fun j y _ hy => chainFrom_noneNext (hy.noneNext hs)
    · have hfurther : Prompt (min n m)
          (expr >>= fun right => chainFrom expr l.isOperator l.combine m (l.combine left op right))
          (upTo bound)
          (fun j => q j.1 >>= fun right => chainFrom (q j.1) l.isOperator l.combine j.2
            (l.combine left op right))
          (Reads l) (v ++ [op]) :=
        (h.reindex (Nat.min_le_left n m) fun j => ⟨j.1, upTo_le bound j, rfl⟩).bind fun right w hw =>
          ih (by simpa using Reads.operation hl hv ho hw)
      rw [List.length_cons] at hn
      rw [chainFrom_of_operator ho]
      refine .cons (hfurther.run us (by omega)) fun ⟨i, k⟩ ys hy => ?_
      obtain ⟨hi, k, rfl, hk⟩ := exists_succ_of_le_upTo (Nat.succ_pos _) hy
      exact ⟨(i, k), le_upTo.2 ⟨Nat.le_of_succ_le hi, Nat.le_of_succ_le_succ hk⟩,
        chainFrom_of_operator ho (q i) left ys⟩

theorem prompt_rule {l : Level} (hl : l.isChain = true)
    (h : Prompt (n + 1) (l.tighter.rule n) (fun i => i + 1) (fun i => l.tighter.rule i)
      (Reads l.tighter) []) :
    Prompt (n + 1) (l.rule n) (fun i => i + 1) (fun i => l.rule i) (Reads l) [] := by
  simp only [Level.rule_of_isChain _ hl]
  refine h.bind fun left w hw => ?_
  exact (prompt_chainFrom hl h hw.tighter).reindex (by simp) fun i =>
    ⟨(i, i + 1), le_upTo.2 ⟨Nat.le_refl _, Nat.le_refl _⟩, rfl⟩

section Assignment

variable {m : Nat} {left : Expr} {equals : Token} {ts w mid rest : List Token}

theorem promptAt_assignment_of_noneNext (hr : Reads .disjunction w left)
    (hq : ∀ i y, (w ++ y).length ≤ bound i → SameNext rest y → q i (w ++ y) = .ok left y)
    (hn : NoneNext (· == .equal) rest) :
    PromptAt (upTo bound) (fun j => assignment (q j.1) j.2) (Reads .assignment) [] (w ++ rest)
      (.ok left rest) := by
  refine .ok rfl (.tighter hr) fun ⟨i, k⟩ y hy hs => ?_
  obtain ⟨hi, k, rfl, -⟩ :=
    exists_succ_of_le_upTo (List.length_append ▸ Nat.add_pos_left hr.length_pos _) hy
  exact assignment_succ_eq_ok.2 (.inl ⟨hq i y hi hs, hs.noneNext hn⟩)

theorem promptAt_assignment_of_name {target : Token} (ht : target.kind = .identifier)
    (he : equals.kind = .equal)
    (hq : ∀ i y, ([target] ++ y).length ≤ bound i → SameNext (equals :: mid) y →
      q i ([target] ++ y) = .ok (.name target) y)
    (hmid : PromptAt (upTo bound) (fun j => assignment (q j.1) j.2) (Reads .assignment) [] mid
      (assignment expr m mid)) :
    PromptAt (upTo bound) (fun j => assignment (q j.1) j.2) (Reads .assignment) []
      ([target] ++ equals :: mid)
      ((assignment expr m >>= fun right => pure (.assign target right)) mid) := by
  have hvalue : PromptAt (upTo bound)
      (fun j => assignment (q j.1) j.2 >>= fun right => pure (.assign target right)) (Reads .assignment)
      [target, equals] mid ((assignment expr m >>= fun right => pure (.assign target right)) mid) :=
    hmid.bind (Nat.le_refl _) fun right w hw => prompt_pure (.assign ht he hw)
  refine PromptAt.append (v := [target, equals]) hvalue fun ⟨i, k⟩ ys hy => ?_
  obtain ⟨hi, k, rfl, hk⟩ := exists_succ_of_le_upTo (Nat.succ_pos _) hy
  have hi' : ys.length ≤ bound i := Nat.le_of_succ_le (Nat.le_of_succ_le hi)
  have hk' : ys.length ≤ k := Nat.le_of_succ_le (Nat.le_of_succ_le_succ hk)
  exact ⟨(i, k), le_upTo.2 ⟨hi', hk'⟩, assignment_of_name (hq i (equals :: ys) hi rfl) he⟩

/-- The mistake is found behind the right side, but the right side cannot mend it. -/
theorem promptAt_assignment_of_not_name (hl : ∀ t, left ≠ .name t) (hr : Reads .disjunction w left)
    (he : equals.kind = .equal)
    (hq : ∀ i y, (w ++ y).length ≤ bound i → SameNext (equals :: mid) y → q i (w ++ y) = .ok left y)
    (hmid : PromptAt (upTo bound) (fun j => assignment (q j.1) j.2) (Reads .assignment) [] mid
      (assignment expr m mid)) :
    PromptAt (upTo bound) (fun j => assignment (q j.1) j.2) (Reads .assignment) [] (w ++ equals :: mid)
      ((assignment expr m >>= fun _ => (fail (.badTarget equals) : Rule Expr)) mid) := by
  have hne : ∀ (j : ι × Nat) y, (w ++ y).length ≤ upTo bound j → SameNext (equals :: mid) y →
      ∀ e r, assignment (q j.1) j.2 (w ++ y) ≠ .ok e r := by
    rintro ⟨i, k⟩ y hy hs
    obtain ⟨equals', ys, rfl, he'⟩ := hs.eq_cons
    obtain ⟨hi, k, rfl, -⟩ :=
      exists_succ_of_le_upTo (List.length_append ▸ Nat.add_pos_left hr.length_pos _) hy
    exact assignment_ne_ok_of_not_name hl (hq i _ hi hs) (he'.trans he)
  rw [bind_apply]
  generalize assignment expr m mid = r at hmid
  cases hmid with
  | ok => exact .fail rfl (fun _ => rfl) hne fun _ =>
    ⟨[], left, by simpa using Reads.tighter (l := .assignment) hr⟩
  | @fail w' x _ _ hts hx _ _ =>
    refine .fail (w := w ++ equals :: w') (by rw [hts]; simp) hx (fun j y hy hs e r => ?_) fun ha => ?_
    · rw [List.append_assoc] at hy ⊢
      exact hne j _ hy rfl e r
    · obtain ⟨t, rfl⟩ := ha w equals w' rfl he w left (List.suffix_refl w) hr
      exact absurd rfl (hl t)

theorem promptAt_assignment_of_ok (hr : Reads .disjunction w left)
    (hq : ∀ i y, (w ++ y).length ≤ bound i → SameNext rest y → q i (w ++ y) = .ok left y)
    (h : expr (w ++ rest) = .ok left rest)
    (hright : ∀ us : List Token, us.length < (w ++ rest).length →
      PromptAt (upTo bound) (fun j => assignment (q j.1) j.2) (Reads .assignment) [] us
        (assignment expr m us)) :
    PromptAt (upTo bound) (fun j => assignment (q j.1) j.2) (Reads .assignment) [] (w ++ rest)
      (assignment expr (m + 1) (w ++ rest)) := by
  obtain hn | ⟨equals, mid, rfl, he⟩ := noneNext_or_eq_cons (· == .equal) rest
  · rw [assignment_succ_eq_ok.2 (.inl ⟨h, hn⟩)]
    exact promptAt_assignment_of_noneNext hr hq hn
  have hequal : equals.kind = .equal := by simpa using he
  have hmid := hright mid (by rw [List.length_append, List.length_cons]; omega)
  by_cases hl : ∃ target, left = .name target
  · obtain ⟨target, rfl⟩ := hl
    obtain ⟨rfl, ht⟩ := hr.eq_singleton (by simp)
    rw [assignment_of_name h hequal]
    exact promptAt_assignment_of_name ht hequal hq hmid
  · have hnot : ∀ t, left ≠ .name t := fun t ht => hl ⟨t, ht⟩
    rw [assignment_of_not_name hnot h hequal]
    exact promptAt_assignment_of_not_name hnot hr hequal hq hmid

theorem promptAt_assignment_of_fail {fault : Fault}
    (h : PromptAt bound q (Reads .disjunction) [] ts (.fail fault rest)) :
    PromptAt (upTo bound) (fun j => assignment (q j.1) j.2) (Reads .assignment)
      [] ts (.fail fault rest) := by
  cases h with
  | fail hts hx hq hc =>
    refine .fail hts hx (fun ⟨i, k⟩ y hy hs => ?_) fun ha => ?_
    · exact assignment_ne_ok (hq i y (Nat.le_trans hy (upTo_le bound _)) hs) k
    · obtain ⟨u, e, he⟩ := hc ha
      exact ⟨u, e, .tighter (l := .assignment) he⟩

theorem prompt_assignment (h : Prompt n expr bound q (Reads .disjunction) []) :
    Prompt (min n m) (assignment expr m) (upTo bound) (fun j => assignment (q j.1) j.2)
      (Reads .assignment) [] := by
  refine ⟨fun ts hn => ?_, Reads.exists .assignment⟩
  induction m generalizing ts with
  | zero =>
    have ho := h.run ts (by omega)
    rw [assignment]
    cases hr : expr ts with
    | ok left rest =>
      rw [hr] at ho
      cases ho with
      | ok hts hw =>
        have hl := congrArg List.length hts
        have hpos : 0 < _ := hw.length_pos
        simp only [List.nil_append, List.length_append] at hl hpos
        omega
    | fail fault rest => exact promptAt_assignment_of_fail (hr ▸ ho)
  | succ m ih =>
    have ho := h.run ts (by omega)
    cases hr : expr ts with
    | ok left rest =>
      rw [hr] at ho
      cases ho with
      | ok hts hw hq =>
        subst hts
        exact promptAt_assignment_of_ok hw hq hr fun us hl => ih us (by omega)
    | fail fault rest =>
      rw [assignment, bind_apply, hr]
      exact promptAt_assignment_of_fail (hr ▸ ho)

end Assignment

theorem prompt_expression (n : Nat) :
    Prompt n (expression n) (fun i => i) expression (Reads .comma) [] := by
  induction n with
  | zero =>
    refine ⟨fun ts hn => ?_, Reads.exists .comma⟩
    rw [List.length_eq_zero_iff.1 (Nat.le_zero.1 hn), expression_nil]
    exact promptAt_nil (fun _ => rfl) expression_nil (Reads.exists .comma)
  | succ n ih =>
    have hf := prompt_rule (l := .factor) rfl (prompt_unary ih)
    have ht := prompt_rule (l := .term) rfl hf
    have hc := prompt_rule (l := .comparison) rfl ht
    have he := prompt_rule (l := .equality) rfl hc
    have hj := prompt_rule (l := .conjunction) rfl he
    have hd := prompt_rule (l := .disjunction) rfl hj
    have ha :
        Prompt (n + 1) (Level.assignment.rule n) (fun i => i + 1) (fun i => Level.assignment.rule i)
        (Reads .assignment) [] :=
      (prompt_assignment (m := n + 1) hd).reindex (by simp) fun i =>
    ⟨(i, i + 1), le_upTo.2 ⟨Nat.le_refl _, Nat.le_refl _⟩, rfl⟩
    have hx :
        Prompt (n + 1) (expression (n + 1)) (fun i => i + 1) (fun i => expression (i + 1))
          (Reads .comma) [] :=
      prompt_rule (l := .comma) rfl ha
    refine ⟨fun ts hn => (hx.run ts hn).reindex fun i y hy _ => ?_, Reads.exists .comma⟩
    cases i with
    | zero =>
      rw [List.length_eq_zero_iff.1 (Nat.le_zero.1 hy)]
      exact ⟨0, Nat.zero_le _, by rw [expression_nil, expression_nil]⟩
    | succ i => exact ⟨i, hy, rfl⟩

end Expressions

section Statements

variable {expr : Rule Expr} {stmt : Rule Stmt} {q : ι → Rule Expr} {qs : ι → Rule Stmt}

/-- Of what is read of a statement only that there is something is needed. -/
abbrev IsStatement (w : List Token) (_ : Stmt) : Prop := Readable .statement w

variable (he : Prompt n expr bound q (Reads .comma) []) (hs : Prompt n stmt bound qs IsStatement [])

include he

theorem prompt_declaration :
    Prompt n (declaration expr) bound (fun i => declaration (q i))
      (fun w _ => ∃ s, ReadsDeclaration w s) [] := by
  have hnil : Prompt n (pure (.literal .nil) : Rule Expr) bound (fun _ => pure (.literal .nil))
      (fun w _ => w = []) [] := prompt_pure rfl
  exact (prompt_expect _ _).bind fun name _ ⟨h1, hi⟩ => (prompt_accept _).bind fun
    | none, _, ⟨h2, _⟩ => hnil.bind fun e _ h3 => (prompt_expect _ _).bind fun semi _ ⟨h4, hsemi⟩ =>
      prompt_pure ⟨_, by subst h1 h2 h3 h4; exact .plain hi hsemi⟩
    | some equals, _, ⟨h2, hq⟩ => he.bind fun e v hv =>
      (prompt_expect _ _).bind fun semi _ ⟨h3, hsemi⟩ =>
      prompt_pure ⟨.declare name e, by
        subst h1 h2 h3
        simpa using ReadsDeclaration.valued hi (by simpa using hq) hv hsemi⟩

theorem prompt_expressionStatement :
    Prompt n (expressionStatement expr) bound (fun i => expressionStatement (q i))
      (fun w _ => ∃ e semi v, w = v ++ [semi] ∧ Reads .comma v e ∧ semi.kind = .semicolon) [] :=
  he.bind fun e v hv => (prompt_expect _ _).bind fun semi _ ⟨h1, hsemi⟩ =>
    prompt_pure ⟨e, semi, v, by subst h1; rfl, hv, hsemi⟩

theorem prompt_printing {print : Token} (hp : print.kind = .kwPrint) :
    Prompt n (printing expr) bound (fun i => printing (q i)) IsStatement [print] :=
  he.bind fun e v hv => (prompt_expect _ _).bind fun semi _ ⟨h1, hsemi⟩ =>
    prompt_pure ⟨_, _, by subst h1; exact .print hp hv hsemi⟩

theorem prompt_firstClause :
    Prompt n (firstClause expr) bound (fun i => firstClause (q i))
      (fun w _ => ∃ first, ReadsFirst w first) [] :=
  (prompt_accept _).bind fun
    | some semi, _, ⟨h1, hsemi⟩ => prompt_pure ⟨_, by subst h1; exact .none (by simpa using hsemi)⟩
    | none, _, ⟨h1, _⟩ => (prompt_accept _).bind fun
      | some var, _, ⟨h2, hv⟩ => ((prompt_declaration he).bind fun s w ⟨s', hd⟩ =>
          prompt_pure ⟨some s', by subst h1 h2; exact .declaration (by simpa using hv) hd⟩)
      | none, _, ⟨h2, _⟩ => (prompt_expressionStatement he).bind fun s w ⟨e, semi, v, hw, hv, hsemi⟩ =>
          prompt_pure ⟨some (.expression e), by subst h1 h2 hw; exact .expression hv hsemi⟩

theorem prompt_unlessNext (kind : Kind) :
    Prompt n (unlessNext kind expr) bound (fun i => unlessNext kind (q i))
      (fun w _ => ∃ clause, ReadsClause w clause) [] :=
  (prompt_nextIs kind).bind fun
    | true, _, h1 => prompt_pure ⟨_, by subst h1; exact .none⟩
    | false, _, h1 => he.bind fun e v hv => prompt_pure ⟨some e, by subst h1; exact .some hv⟩

include hs

theorem prompt_conditional {kw : Token} (hk : kw.kind = .kwIf) :
    Prompt n (conditional expr stmt) bound (fun i => conditional (q i) (qs i)) IsStatement [kw] :=
  (prompt_expect _ _).bind fun opening _ ⟨h1, ho⟩ => he.bind fun c v hv =>
    (prompt_expect _ _).bind fun closing _ ⟨h2, hc⟩ => hs.bind fun yes w hw => (prompt_accept _).bind fun
      | none, _, ⟨h3, _⟩ => prompt_pure (by
          subst h1 h2 h3
          simpa using readable_conditional hk ho hv hc hw (.inl rfl))
      | some other, _, ⟨h3, hl⟩ => hs.bind fun no w' hw' => prompt_pure (by
          subst h1 h2 h3
          have hother :
              (Form.option (Form.kind .kwElse ++ Form.category .statement)).Holds Readable
                ([other] ++ w') :=
            .inr ⟨[other], w', rfl, ⟨other, rfl, by simpa using hl⟩, hw'⟩
          simpa using readable_conditional hk ho hv hc hw hother)

theorem prompt_whileLoop {kw : Token} (hk : kw.kind = .kwWhile) :
    Prompt n (whileLoop expr stmt) bound (fun i => whileLoop (q i) (qs i)) IsStatement [kw] :=
  (prompt_expect _ _).bind fun opening _ ⟨h1, ho⟩ => he.bind fun c v hv =>
    (prompt_expect _ _).bind fun closing _ ⟨h2, hc⟩ => hs.bind fun body w ⟨isOpen, s, hw⟩ =>
      prompt_pure ⟨isOpen,
        .whileLoop c s, by subst h1 h2; simpa using ReadsPhrase.whileLoop hk ho hv hc hw⟩

theorem prompt_forLoop {kw : Token} (hk : kw.kind = .kwFor) :
    Prompt n (forLoop expr stmt) bound (fun i => forLoop (q i) (qs i)) IsStatement [kw] :=
  (prompt_expect _ _).bind fun opening _ ⟨h1, ho⟩ => (prompt_firstClause he).bind fun _ u ⟨first, hf⟩ =>
    (prompt_unlessNext he _).bind fun _ v ⟨condition, hv⟩ =>
      (prompt_expect _ _).bind fun semi _ ⟨h2, hsemi⟩ =>
      (prompt_unlessNext he _).bind fun _ v' ⟨step, hv'⟩ =>
        (prompt_expect _ _).bind fun closing _ ⟨h3, hc⟩ =>
        hs.bind fun body w ⟨isOpen, s, hw⟩ => prompt_pure ⟨isOpen, .forLoop first condition step s, by
          subst h1 h2 h3
          simpa using ReadsPhrase.forLoop hk ho hf hv hsemi hv' hc hw⟩

end Statements

section Items

variable {expr : Rule Expr} {stmt : Rule Stmt} {q : ι → Rule Expr} {qs : ι → Rule Stmt} {m : Nat}

abbrev IsItem (w : List Token) (_ : Stmt) : Prop := Readable .declaration w

abbrev IsBlockBody (w : List Token) (_ : List Stmt) : Prop :=
  ∃ v closing ss, w = v ++ [closing] ∧ closing.kind = .rightBrace ∧ ReadsPhrase v (.items ss)

theorem prompt_item {bound' : ι → Nat} (he : Prompt n expr bound q (Reads .comma) [])
    (hs : Prompt m stmt bound' qs IsStatement []) (hm : m ≤ n + 1) (hb : ∀ i, bound' i ≤ bound i + 1) :
    Prompt m (item expr stmt) bound' (fun i => item (q i) (qs i)) IsItem [] := by
  have hitem : ∀ w, Readable .statement w → Readable .declaration w := by
    rintro w ⟨isOpen, s, hw⟩
    exact ⟨s, by simpa using ReadsPhrase.statement hw .nil⟩
  refine ⟨fun ts hn => ?_, ?_⟩
  · obtain hv | ⟨var, us, rfl, hv⟩ := noneNext_or_eq_cons (· == .kwVar) ts
    · rw [item_of_noneNext hv]
      exact ((hs.run ts hn).mono fun w _ hw => hitem w hw).reindex fun i y hy hsame =>
        ⟨i, hy, item_of_noneNext (hsame.noneNext hv) _ _⟩
    · have hvar : var.kind = .kwVar := by simpa using hv
      rw [item_of_var hvar]
      have hus : us.length ≤ n := Nat.le_of_succ_le_succ (Nat.le_trans hn hm)
      refine .cons (((prompt_declaration he).run us hus).mono fun w _ ⟨s, hd⟩ => ?_) fun i ys hy => ?_
      · exact ⟨s, by simpa using ReadsPhrase.declaration hvar hd .nil⟩
      · exact ⟨i, Nat.le_of_succ_le_succ (Nat.le_trans hy (hb i)), item_of_var hvar _ _ _⟩
  · obtain ⟨u, s, hu⟩ := hs.completable
    exact ⟨u, s, hitem u hu⟩

theorem exists_isBlockBody : ∃ u ss, IsBlockBody ([] ++ u) ss :=
  ⟨_, [], [], ⟨.rightBrace, "", .nil, 0⟩, [], rfl, rfl, .nil⟩

theorem promptAt_blockBody_nil :
    PromptAt (upTo bound) (fun j => blockBody (q j.1) (qs j.1) j.2) IsBlockBody [] []
    (blockBody expr stmt m []) := by
  rw [blockBody_nil_eq]
  exact promptAt_nil (fun _ => rfl) (fun _ => blockBody_nil_eq _ _ _) exists_isBlockBody

theorem promptAt_blockBody_closing {closing : Token} (hc : closing.kind = .rightBrace)
    {ts : List Token} :
    PromptAt (upTo bound) (fun j => blockBody (q j.1) (qs j.1) j.2) IsBlockBody [] (closing :: ts)
      (blockBody expr stmt (m + 1) (closing :: ts)) := by
  rw [blockBody_cons_eq_ok.2 (.inl ⟨hc, rfl, rfl⟩)]
  refine .ok (w := [closing]) rfl ⟨[], closing, [], rfl, hc, .nil⟩ fun ⟨i, k⟩ y hy _ => ?_
  obtain ⟨-, k, rfl, -⟩ := exists_succ_of_le_upTo (Nat.succ_pos _) hy
  exact blockBody_cons_eq_ok.2 (.inl ⟨hc, rfl, rfl⟩)

theorem promptAt_blockBody_item (he : Prompt n expr bound q (Reads .comma) [])
    (hs : Prompt n stmt bound qs IsStatement [])
    (hothers : Prompt (min n m) (blockBody expr stmt m) (upTo bound)
      (fun j => blockBody (q j.1) (qs j.1) j.2)
      IsBlockBody [])
    {t : Token} (ht : t.kind ≠ .rightBrace) {ts : List Token} (hn : (t :: ts).length ≤ min n (m + 1)) :
    PromptAt (upTo bound) (fun j => blockBody (q j.1) (qs j.1) j.2) IsBlockBody [] (t :: ts)
      (blockBody expr stmt (m + 1) (t :: ts)) := by
  have hitem :
      Prompt (min n (m + 1)) (item expr stmt) (upTo bound) (fun j => item (q j.1) (qs j.1)) IsItem [] :=
    (prompt_item he hs (Nat.le_succ n) fun i => Nat.le_succ (bound i)).reindex
      (Nat.min_le_left _ _) fun j => ⟨j.1, upTo_le bound j, rfl⟩
  have hlist : ∀ (first : Stmt) w, IsItem w first → Prompt (min n m)
      (blockBody expr stmt m >>= fun others => pure (first :: others))
      (fun j : ι × Nat => upTo bound (j.1, j.2 - 1))
      (fun j => blockBody (q j.1) (qs j.1) (j.2 - 1) >>= fun others => pure (first :: others))
      IsBlockBody ([] ++ w) := by
    rintro first w ⟨s, hw⟩
    have hm : Prompt (min n m) (blockBody expr stmt m) (fun j : ι × Nat => upTo bound (j.1, j.2 - 1))
        (fun j => blockBody (q j.1) (qs j.1) (j.2 - 1)) IsBlockBody [] :=
      hothers.reindex (Nat.le_refl _) fun j => ⟨(j.1, j.2 - 1), Nat.le_refl _, rfl⟩
    exact hm.bind fun others _ ⟨v, closing, ss, h, hb, hv⟩ =>
      prompt_pure ⟨w ++ v, closing, s :: ss, by simp [h], hb, hw.append hv⟩
  have hpos : ∀ {w : List Token} {s : Stmt}, IsItem w s → 0 < w.length :=
    fun ⟨_, hw⟩ => List.length_pos_iff.2 hw.ne_nil
  rw [blockBody_of_item ht]
  refine ((hitem.run _ hn).andThen (fun first w rest hw h => ?_) (fun first w hw ⟨i, k⟩ y hy => ?_)
    hlist).reindex fun ⟨i, k⟩ y hy hsame => ?_
  · have hl := congrArg List.length h
    have := hpos hw
    rw [List.length_append] at hl
    omega
  · have := hpos hw
    obtain ⟨hi, hk⟩ := le_upTo.1 hy
    rw [List.length_append] at hi hk
    exact le_upTo.2 ⟨Nat.le_trans (Nat.le_add_left _ _) hi, by omega⟩
  · obtain ⟨u, us, rfl, hu⟩ := hsame.eq_cons
    obtain ⟨-, k, rfl, -⟩ := exists_succ_of_le_upTo (Nat.succ_pos _) hy
    exact ⟨(i, k + 1), hy, blockBody_of_item (hu ▸ ht) _ _ k us⟩

theorem prompt_blockBody (he : Prompt n expr bound q (Reads .comma) [])
    (hs : Prompt n stmt bound qs IsStatement []) :
    Prompt (min n m) (blockBody expr stmt m) (upTo bound) (fun j => blockBody (q j.1) (qs j.1) j.2)
      IsBlockBody [] := by
  refine ⟨fun ts hn => ?_, exists_isBlockBody⟩
  induction m generalizing ts with
  | zero =>
    rw [List.length_eq_zero_iff.1 (show ts.length = 0 by omega)]
    exact promptAt_blockBody_nil
  | succ m ih =>
    cases ts with
    | nil => exact promptAt_blockBody_nil
    | cons t ts =>
      by_cases ht : t.kind = .rightBrace
      · exact promptAt_blockBody_closing ht
      · exact promptAt_blockBody_item he hs ⟨ih, exists_isBlockBody⟩ ht hn

end Items

theorem prompt_block {opening : Token} (ho : opening.kind = .leftBrace)
    (hs : Prompt n (statement n) (fun i => i) statement IsStatement []) :
    Prompt n (Stmt.block <$> blockBody (expression n) (statement n) n) (fun i : Nat => i)
      (fun i => Stmt.block <$> blockBody (expression i) (statement i) i) IsStatement [opening] := by
  have hb : Prompt n (blockBody (expression n) (statement n) n) (fun i : Nat => i)
      (fun i => blockBody (expression i) (statement i) i) IsBlockBody [] :=
    (prompt_blockBody (m := n) (prompt_expression n) hs).reindex (by simp) fun i =>
      ⟨(i, i), le_upTo.2 ⟨Nat.le_refl _, Nat.le_refl _⟩, rfl⟩
  refine hb.bind fun _ _ ⟨v, closing, ss, h, hc, hv⟩ => prompt_pure ⟨false, .block ss, ?_⟩
  subst h
  simpa using ReadsPhrase.block ho hv hc

theorem exists_isStatement : ∃ u s, IsStatement ([] ++ u) s := by
  obtain ⟨w, e, hw⟩ := Reads.exists .comma
  exact ⟨w ++ [⟨.semicolon, "", .nil, 0⟩], .expression e, false, .expression e, .expression hw rfl⟩

theorem promptAt_statement_of_expression {t : Token} {ts : List Token}
    (hk : NoneNext startsKeyword (t :: ts)) (hn : (t :: ts).length ≤ n + 1) :
    PromptAt (fun i : Nat => i) statement IsStatement [] (t :: ts)
      (statement (n + 1) (t :: ts)) := by
  have hx := (prompt_expressionStatement (prompt_expression (n + 1))).run (t :: ts) hn
  have hs :
      PromptAt (fun i : Nat => i) (fun i => expressionStatement (expression i)) IsStatement [] (t :: ts)
      (expressionStatement (expression (n + 1)) (t :: ts)) :=
    hx.mono fun w _ ⟨e, semi, v, hw, hv, hsemi⟩ =>
      ⟨false, .expression e, by rw [hw]; exact .expression hv hsemi⟩
  rw [statement_of_noneNext hk]
  refine hs.reindex fun i y hy hsame => ?_
  obtain ⟨u, us, rfl, _⟩ := hsame.eq_cons
  cases i with
  | zero => simp at hy
  | succ i => exact ⟨i + 1, hy, statement_of_noneNext (hsame.noneNext hk) i⟩

theorem promptAt_statement_of_keyword {t : Token} {ts : List Token} {q : Nat → Rule Stmt}
    (h : PromptAt (fun i : Nat => i) q IsStatement [t] ts (statement (n + 1) (t :: ts)))
    (hq : ∀ i ys, statement (i + 1) (t :: ys) = q i ys) :
    PromptAt (fun i : Nat => i) statement IsStatement [] (t :: ts) (statement (n + 1) (t :: ts)) := by
  refine h.cons fun i ys hy => ?_
  cases i with
  | zero => simp at hy
  | succ i => exact ⟨i, Nat.le_of_succ_le_succ hy, hq i ys⟩

theorem promptAt_statement_nil :
    PromptAt (fun i : Nat => i) statement IsStatement [] [] (statement n []) := by
  rw [statement_nil_eq]
  exact promptAt_nil (fun _ => rfl) statement_nil_eq exists_isStatement

theorem prompt_statement (n : Nat) : Prompt n (statement n) (fun i => i) statement IsStatement [] := by
  refine ⟨fun ts hn => ?_, exists_isStatement⟩
  induction n generalizing ts with
  | zero =>
    rw [List.length_eq_zero_iff.1 (Nat.le_zero.1 hn)]
    exact promptAt_statement_nil
  | succ n ih =>
    cases ts with
    | nil => exact promptAt_statement_nil
    | cons t ts =>
      by_cases hk : NoneNext startsKeyword (t :: ts)
      · exact promptAt_statement_of_expression hk hn
      · have he := prompt_expression n
        have hs : Prompt n (statement n) (fun i => i) statement IsStatement [] :=
          ⟨ih, exists_isStatement⟩
        have hts : ts.length ≤ n := Nat.le_of_succ_le_succ hn
        obtain ⟨kind, lexeme, value, line⟩ := t
        cases kind with
        | kwFor =>
          exact promptAt_statement_of_keyword ((prompt_forLoop he hs rfl).run ts hts) fun _ _ => rfl
        | kwIf =>
          exact promptAt_statement_of_keyword ((prompt_conditional he hs rfl).run ts hts) fun _ _ => rfl
        | kwPrint =>
          exact promptAt_statement_of_keyword ((prompt_printing he rfl).run ts hts) fun _ _ => rfl
        | kwWhile =>
          exact promptAt_statement_of_keyword ((prompt_whileLoop he hs rfl).run ts hts) fun _ _ => rfl
        | leftBrace =>
          exact promptAt_statement_of_keyword ((prompt_block rfl hs).run ts hts) fun _ _ => rfl
        | _ => exact absurd (noneNext_cons.2 rfl) hk

end Lox.Grammar
