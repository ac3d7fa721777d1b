import Lox.Proofs.Grammar.Completeness
import Lox.Proofs.Grammar.Soundness
import Lox.Proofs.Grammar.Tracking

namespace Lox.Grammar

namespace Tape

variable {tape : Tape} {n : Nat}

section Expressions

variable {inner : Walk Expr} {p : Rule Expr}

theorem tracks_grouping (h : tape.Tracks n inner p) : tape.Tracks n (Walk.grouping inner) (grouping p) :=
  h.bind fun _ => (tracks_expect _ _).bind fun _ => tracks_pure _

theorem tracks_primary (h : tape.Tracks n inner p) :
    tape.Tracks (n + 1) (Walk.primary inner) (primary p) := by
  intro i hi hn
  have hfail : Walk.primary inner tape.tokens i =
        .failed i (Fault.unmatched.toError tape.stop (tape.body.drop i)) i →
      primary p (tape.body.drop i) = .fail .unmatched (tape.body.drop i) →
      tape.Agrees i (primary p (tape.body.drop i)) (Walk.primary inner tape.tokens i) := by
    intro hw hr
    rw [hw, hr]
    exact agrees_blame hi rfl
  obtain ⟨hl, hd⟩ | ⟨rfl, hd⟩ := lt_or_eq_of_le hi
  · have hpass : ∀ e, Walk.primary inner tape.tokens i = .done e (i + 1) →
        primary p (tape.body[i] :: tape.body.drop (i + 1)) = .ok e (tape.body.drop (i + 1)) →
        tape.Agrees i (primary p (tape.body.drop i)) (Walk.primary inner tape.tokens i) := by
      intro e hw hr
      rw [hw, hd, hr]
      exact .ok (Nat.le_succ i) hl
    cases hk : tape.body[i].kind with
    | kwFalse | kwTrue | kwNil | number | string | identifier =>
      apply hpass
      · simp [Walk.primary, bind_walk, pure_walk, accept_of_lt _ hl, hk, previous_of_lt hl]
        rfl
      · simp [primary, hk]
    | leftParen =>
      have hw : Walk.primary inner tape.tokens i = Walk.grouping inner tape.tokens (i + 1) := by
        simp [Walk.primary, bind_walk, accept_of_lt _ hl, hk]
      have hr : primary p (tape.body.drop i) = grouping p (tape.body.drop (i + 1)) := by
        rw [hd]
        simp [primary, hk]
      rw [hw, hr]
      exact (tracks_grouping h).behind hl hn
    | _ =>
      apply hfail
      · simp [Walk.primary, bind_walk, accept_of_lt _ hl, hk, current_of_le hi, Walk.position,
          Walk.blame, Fault.toError]
      · rw [hd]
        simp [primary, hk]
  · apply hfail
    · simp [Walk.primary, bind_walk, accept_end, current_of_le hi, Walk.position, Walk.blame,
        Fault.toError]
    · rw [hd, primary]

theorem unary_eq_accept (p : Rule Expr) : unary p = (do
    match ← Rule.accept isUnary with
    | none => primary p
    | some operator => unary p >>= fun right => pure (Expr.unary operator right)) := by
  funext ts
  obtain hs | ⟨t, us, rfl, ht⟩ := noneNext_or_eq_cons isUnary ts
  · rw [Rule.bind_apply, Rule.accept_eq_none.2 ⟨rfl, hs⟩, unary_of_noneNext hs]
  · rw [Rule.bind_apply, Rule.accept_eq_some.2 ⟨rfl, ht⟩, unary_cons_of_isUnary ht]

theorem tracks_unary (h : tape.Tracks n inner p) {j k : Nat} (hj : j ≤ n + 1) (hk : j ≤ k) :
    tape.Tracks j (Walk.unary inner k) (unary p) := by
  induction k generalizing j with
  | zero => exact fun i _ hi => absurd hi (by omega)
  | succ k ih =>
    rw [unary_eq_accept, Walk.unary]
    refine Tracks.accept (fun kind => by cases kind <;> rfl) (fun i hi hn => ?_)
      ((tracks_primary h).mono hj)
    obtain ⟨j, rfl⟩ : ∃ j', j = j' + 1 := ⟨j - 1, by omega⟩
    simp only [if_true, bind_walk, previous_of_lt hi]
    have hright : tape.Tracks j (Walk.unary inner k) (unary p) := ih (by omega) (by omega)
    exact (hright.bind fun right => tracks_pure (Expr.unary tape.body[i] right)).behind hi hn

section Chain

variable {operand : Walk Expr} {q : Rule Expr} {operators : List Kind} {isOperator : Kind → Bool}
  {combine : Expr → Token → Expr → Expr}

theorem tracks_chainFrom (ho : ∀ k, isOperator k = operators.contains k) (h : tape.Tracks n operand q)
    {j k l : Nat} (hj : j ≤ n) (hk : j ≤ k) (hl : j ≤ l + 1) (left : Expr) :
    tape.Tracks j (Walk.chainFrom operand operators combine k left)
      (chainFrom q isOperator combine l left) := by
  induction k generalizing j l left with
  | zero => exact fun i _ hi => absurd hi (by omega)
  | succ k ih =>
    rw [Walk.chainFrom]
    cases l with
    | zero =>
      intro i hi hn
      obtain rfl : i = tape.body.length := by omega
      simp only [bind_walk, accept_end]
      exact tracks_pure left _ hi hn
    | succ l =>
      refine Tracks.accept ho (fun i hi hn => ?_) (tracks_pure left)
      obtain ⟨j, rfl⟩ : ∃ j', j = j' + 1 := ⟨j - 1, by omega⟩
      simp only [if_true, bind_walk, previous_of_lt hi]
      have hfurther : ∀ right, tape.Tracks j
          (Walk.chainFrom operand operators combine k (combine left tape.body[i] right))
          (chainFrom q isOperator combine l (combine left tape.body[i] right)) := fun right =>
        ih (by omega) (by omega) (by omega) _
      exact ((h.mono (by omega)).bind hfurther).behind hi hn

theorem tracks_chain (ho : ∀ k, isOperator k = operators.contains k) (h : tape.Tracks n operand q)
    {k l : Nat} (hk : n ≤ k) (hl : n ≤ l + 1) :
    tape.Tracks n (Walk.chain operand operators combine k) (chain q isOperator combine l) :=
  h.bind fun left => tracks_chainFrom ho h (Nat.le_refl n) hk hl left

end Chain

/-- The bounds are those of the rules around: fewer than `n` tokens are left for an expression in
parentheses, and at most `n` for one around it. -/
theorem tracks_disjunction (h : tape.Tracks n inner p) {k l : Nat} (hk : n + 1 ≤ k) (hl : n ≤ l) :
    tape.Tracks (n + 1) (Walk.disjunction inner k) (disjunction l p) := by
  have hu : tape.Tracks (n + 1) (Walk.unary inner k) (unary p) := tracks_unary h (Nat.le_refl _) hk
  have hf : tape.Tracks (n + 1) (Walk.factor inner k) (factor l p) :=
    tracks_chain (fun kind => by cases kind <;> rfl) hu hk (by omega)
  have ht : tape.Tracks (n + 1) (Walk.term inner k) (term l p) :=
    tracks_chain (fun kind => by cases kind <;> rfl) hf hk (by omega)
  have hc : tape.Tracks (n + 1) (Walk.comparison inner k) (comparison l p) :=
    tracks_chain (fun kind => by cases kind <;> rfl) ht hk (by omega)
  have he : tape.Tracks (n + 1) (Walk.equality inner k) (equality l p) :=
    tracks_chain (fun kind => by cases kind <;> rfl) hc hk (by omega)
  have hj : tape.Tracks (n + 1) (Walk.conjunction inner k) (conjunction l p) :=
    tracks_chain (fun kind => by cases kind <;> rfl) he hk (by omega)
  exact tracks_chain (fun kind => by cases kind <;> rfl) hj hk (by omega)

/-- The equals sign that is blamed in retrospect stands one before the cursor where it is
remembered. -/
theorem tracks_assignment {operand : Walk Expr} {q : Rule Expr} (h : tape.Tracks n operand q)
    {j k l : Nat} (hj : j ≤ n) (hk : j ≤ k) (hl : j ≤ l + 1) :
    tape.Tracks j (Walk.assignment operand k) (assignment q l) := by
  induction k generalizing j l with
  | zero => exact fun i _ hi => absurd hi (by omega)
  | succ k ih =>
    rw [Walk.assignment]
    cases l with
    | zero =>
      have hq : q = (q >>= fun left => pure left) := by
        funext ts
        rw [Rule.bind_apply]
        cases q ts <;> rfl
      rw [assignment, hq]
      refine (h.mono hj).bind fun left i hi hn => ?_
      obtain rfl : i = tape.body.length := by omega
      simp only [bind_walk, accept_end]
      exact tracks_pure left _ hi hn
    | succ l =>
      refine (h.mono hj).bind fun left =>
        Tracks.accept (fun kind => by cases kind <;> rfl) (fun i hi hn => ?_) (tracks_pure left)
      obtain ⟨j, rfl⟩ : ∃ j', j = j' + 1 := ⟨j - 1, by omega⟩
      have hright : tape.Tracks j (Walk.assignment operand k) (assignment q l) :=
        ih (by omega) (by omega) (by omega)
      have ha := hright (i + 1) hi (by omega)
      simp only [if_true, bind_walk, previous_of_lt hi, Walk.position, Rule.bind_apply]
      generalize assignment q l (tape.body.drop (i + 1)) =
        r, Walk.assignment operand k tape.tokens (i + 1) = o at ha
      cases ha with
      | @ok right i' hs hi' =>
        cases left with
        | name target => exact .ok (Nat.le_of_succ_le hs) hi'
        | _ => exact .fail (Nat.le_refl i) (Nat.le_of_succ_le hs) hi' (getElem?_tokens hi)
      | fail hs hp hi' ht => exact .fail (Nat.le_of_succ_le hs) hp hi' ht

theorem tracks_expression_succ {k l : Nat} (h : tape.Tracks n (Walk.expression k) p) (hk : n ≤ k)
    (hl : n ≤ l + 1) :
    tape.Tracks (n + 1) (Walk.expression (k + 1))
      (chain (assignment (disjunction (l + 1) p) (l + 1)) (· == .comma) (fun _ _ e => e) (l + 1)) :=
  have hd := tracks_disjunction h (k := k + 1) (l := l + 1) (by omega) (by omega)
  have ha := tracks_assignment hd (k := k + 1) (l := l + 1) (Nat.le_refl _) (by omega) (by omega)
  tracks_chain (fun kind => by cases kind <;> rfl) ha (by omega) (by omega)

theorem tracks_expression {k : Nat} (hk : n < k) :
    tape.Tracks (n + 1) (Walk.expression k) (expression n) := by
  obtain ⟨k, rfl⟩ : ∃ k', k = k' + 1 := ⟨k - 1, by omega⟩
  induction n generalizing k with
  | zero =>
    -- where nothing is left the bound does not matter
    intro i hi hn
    obtain rfl : i = tape.body.length := by omega
    have hnone : tape.Tracks 0 (Walk.expression k) (expression 0) := fun i _ hi => absurd hi (by omega)
    have h := tracks_expression_succ (l := 0) hnone (Nat.zero_le k) (Nat.zero_le 1) _ hi hn
    have he :
        expression 0 (tape.body.drop tape.body.length) =
          expression 1 (tape.body.drop tape.body.length) := by
      rw [List.drop_length, expression_nil, expression_nil]
    rw [he]
    exact h
  | succ n ih =>
    obtain ⟨k, rfl⟩ : ∃ k', k = k' + 1 := ⟨k - 1, by omega⟩
    exact tracks_expression_succ (ih k (by omega)) (by omega) (by omega)

end Expressions

section Statements

variable {expr : Walk Expr} {stmt : Walk Stmt} {p : Rule Expr} {q : Rule Stmt}

theorem tracks_declaration (he : tape.Tracks n expr p) :
    tape.Tracks n (Walk.declaration expr) (declaration p) := by
  refine (tracks_expect _ _).bind fun name => Tracks.accept' (fun kind => by cases kind <;> rfl)
    (fun _ => ?_) ?_
  · exact he.bind fun _ => (tracks_expect _ _).bind fun _ => tracks_pure _
  · exact (tracks_pure _).bind fun _ => (tracks_expect _ _).bind fun _ => tracks_pure _

theorem tracks_printing (he : tape.Tracks n expr p) : tape.Tracks n (Walk.printing expr) (printing p) :=
  he.bind fun _ => (tracks_expect _ _).bind fun _ => tracks_pure _

theorem tracks_expressionStatement (he : tape.Tracks n expr p) :
    tape.Tracks n (Walk.expressionStatement expr) (expressionStatement p) :=
  he.bind fun _ => (tracks_expect _ _).bind fun _ => tracks_pure _

theorem tracks_conditional (he : tape.Tracks n expr p) (hs : tape.Tracks n stmt q) :
    tape.Tracks n (Walk.conditional expr stmt) (conditional p q) :=
  (tracks_expect _ _).bind fun _ => he.bind fun _ => (tracks_expect _ _).bind fun _ => hs.bind fun _ =>
    Tracks.accept' (fun kind => by cases kind <;> rfl) (fun _ => hs.bind fun _ => tracks_pure _)
      (tracks_pure _)

theorem tracks_whileLoop (he : tape.Tracks n expr p) (hs : tape.Tracks n stmt q) :
    tape.Tracks n (Walk.whileLoop expr stmt) (whileLoop p q) :=
  (tracks_expect _ _).bind fun _ => he.bind fun _ => (tracks_expect _ _).bind fun _ =>
    hs.bind fun _ => tracks_pure _

theorem tracks_firstClause (he : tape.Tracks n expr p) :
    tape.Tracks n (Walk.firstClause expr) (firstClause p) :=
  Tracks.accept' (fun kind => by cases kind <;> rfl) (fun _ => tracks_pure _) <|
    Tracks.accept' (fun kind => by cases kind <;> rfl) (fun _ => (tracks_declaration he).map _)
      ((tracks_expressionStatement he).map _)

theorem tracks_unlessNext (he : tape.Tracks n expr p) (kind : Kind) :
    tape.Tracks n (Walk.unlessNext expr kind) (Rule.unlessNext kind p) :=
  (tracks_check kind).bind fun
    | true => tracks_pure _
    | false => he.map _

theorem tracks_forLoop (he : tape.Tracks n expr p) (hs : tape.Tracks n stmt q) :
    tape.Tracks n (Walk.forLoop expr stmt) (forLoop p q) :=
  (tracks_expect _ _).bind fun _ => (tracks_firstClause he).bind fun _ =>
    (tracks_unlessNext he _).bind fun _ =>
    (tracks_expect _ _).bind fun _ => (tracks_unlessNext he _).bind fun _ =>
      (tracks_expect _ _).bind fun _ =>
      hs.bind fun _ => tracks_pure _

theorem item_eq_accept (p : Rule Expr) (q : Rule Stmt) : item p q = (do
    match ← Rule.accept (· == .kwVar) with
    | none => q
    | some _ => declaration p) := by
  funext ts
  obtain hs | ⟨t, us, rfl, ht⟩ := noneNext_or_eq_cons (· == .kwVar) ts
  · rw [Rule.bind_apply, Rule.accept_eq_none.2 ⟨rfl, hs⟩, item_of_noneNext hs]
  · rw [Rule.bind_apply, Rule.accept_eq_some.2 ⟨rfl, ht⟩, item_of_var (by simpa using ht)]

theorem tracks_item (he : tape.Tracks n expr p) (hs : tape.Tracks (n + 1) stmt q) :
    tape.Tracks (n + 1) (Walk.item expr stmt) (item p q) := by
  rw [item_eq_accept]
  exact Tracks.accept (fun kind => by cases kind <;> rfl)
    (fun i hi hn => (tracks_declaration he).behind hi hn) hs

theorem tracks_closing : tape.Tracks n Walk.closing ((fun _ => []) <$> closing) :=
  (tracks_expect _ _).map _

theorem tracks_blockBody (he : tape.Tracks n expr p) (hs : tape.Tracks (n + 1) stmt q)
    (hp : ∀ ts s rest, item p q ts = .ok s rest → rest.length < ts.length) {j k l : Nat}
    (hj : j ≤ n + 1) (hk : j ≤ k) (hl : j ≤ l + 1) :
    tape.Tracks j (Walk.blockBody expr stmt k) (blockBody p q l) := by
  induction k generalizing j l with
  | zero => exact fun i _ hi => absurd hi (by omega)
  | succ k ih =>
    intro i hi hn
    have hclosing : tape.Agrees i _ (Walk.closing tape.tokens i) := tracks_closing i hi hn
    obtain ⟨h, hd⟩ | ⟨rfl, hd⟩ := lt_or_eq_of_le hi
    · obtain ⟨l, rfl⟩ : ∃ l', l = l' + 1 := ⟨l - 1, by omega⟩
      by_cases hb : tape.body[i].kind = .rightBrace
      · have hw : Walk.blockBody expr stmt (k + 1) tape.tokens i = Walk.closing tape.tokens i := by
          simp [Walk.blockBody, Walk.endsBlock, bind_walk, pure_walk, check_of_lt _ h, hb]
        have hr :
            blockBody p q (l + 1) (tape.body.drop i) =
              ((fun _ => []) <$> closing) (tape.body.drop i) := by
          rw [hd, blockBody_cons_eq_ok.2 (.inl ⟨hb, rfl, rfl⟩)]
          have hr :
              closing (tape.body[i] :: tape.body.drop (i + 1)) =
                .ok tape.body[i] (tape.body.drop (i + 1)) :=
            Rule.expect_eq_ok.2 ⟨rfl, hb⟩
          exact (Rule.map_eq_ok (f := fun _ => ([] : List Stmt)).2 ⟨_, hr, rfl⟩).symm
        rwa [hw, hr]
      · have hw : Walk.blockBody expr stmt (k + 1) tape.tokens i = (Walk.item expr stmt >>= fun first =>
            Walk.blockBody expr stmt k >>= fun others => pure (first :: others)) tape.tokens i := by
          simp [Walk.blockBody, Walk.endsBlock, bind_walk, pure_walk, check_of_lt _ h, atEnd_of_lt h, hb]
        obtain ⟨j, rfl⟩ : ∃ j', j = j' + 1 := ⟨j - 1, by omega⟩
        have hothers : tape.Tracks j (Walk.blockBody expr stmt k) (blockBody p q l) :=
          ih (by omega) (by omega) (by omega)
        have hitem := ((tracks_item he hs).mono hj).bind_of_passing hp (Nat.le_refl _) fun first =>
          hothers.bind fun others => tracks_pure (first :: others)
        rw [hw, hd, blockBody_of_item hb, ← hd]
        exact hitem i hi hn
    · have hw : Walk.blockBody expr stmt (k + 1) tape.tokens tape.body.length =
          Walk.closing tape.tokens tape.body.length := by
        simp [Walk.blockBody, Walk.endsBlock, bind_walk, check_end, atEnd_end]
      have hr : blockBody p q l (tape.body.drop tape.body.length) =
          ((fun _ => []) <$> closing) (tape.body.drop tape.body.length) := by
        rw [hd, blockBody_nil_eq]
        rfl
      rwa [hw, hr]

end Statements

theorem length_lt_of_item {n m : Nat} {ts rest : List Token} {s : Stmt}
    (h : item (expression n) (statement m) ts = .ok s rest) : rest.length < ts.length := by
  obtain ⟨w, rfl, hw⟩ := item_sound (expression_sound n) (statement_sound m) h
  have hpos := List.length_pos_iff.2 hw.ne_nil
  rw [List.length_append]
  omega

theorem walk_statement_end (k : Nat) : Walk.statement (k + 1) tape.tokens tape.body.length =
    Walk.expressionStatement (Walk.expression (k + 1)) tape.tokens tape.body.length := by
  simp [Walk.statement, bind_walk, accept_end]

theorem tracks_statement_succ {k : Nat} (h : tape.Tracks (n + 1) (Walk.statement k) (statement n))
    (hk : n < k) :
    tape.Tracks (n + 2) (Walk.statement (k + 1)) (statement (n + 1)) := by
  have he : tape.Tracks (n + 1) (Walk.expression k) (expression n) := tracks_expression hk
  have hx : tape.Tracks (n + 2) (Walk.expressionStatement (Walk.expression (k + 1)))
      (expressionStatement (expression (n + 1))) :=
        tracks_expressionStatement (tracks_expression (Nat.succ_lt_succ hk))
  have hb : tape.Tracks (n + 1) (Walk.blockBody (Walk.expression k) (Walk.statement k) k)
      (blockBody (expression n) (statement n) n) :=
    tracks_blockBody (he.mono (Nat.le_succ n)) h (fun _ _ _ => length_lt_of_item) (Nat.le_refl _) hk
      (Nat.le_refl _)
  intro i hi hn
  obtain ⟨hl, hd⟩ | ⟨rfl, hd⟩ := lt_or_eq_of_le hi
  · have hpass : ∀ {m : Walk Stmt} {q : Rule Stmt}, tape.Tracks (n + 1) m q →
        Walk.statement (k + 1) tape.tokens i = m tape.tokens (i + 1) →
        statement (n + 1) (tape.body[i] :: tape.body.drop (i + 1)) = q (tape.body.drop (i + 1)) →
        tape.Agrees i (statement (n + 1) (tape.body.drop i)) (Walk.statement (k + 1) tape.tokens i) := by
      intro m q hm hw hr
      rw [hw, hd, hr]
      exact hm.behind hl hn
    cases hkind : tape.body[i].kind with
    | kwFor =>
      apply hpass (tracks_forLoop he h)
      · simp [Walk.statement, bind_walk, accept_of_lt _ hl, hkind]
      · simp [statement, hkind]
    | kwIf =>
      apply hpass (tracks_conditional he h)
      · simp [Walk.statement, bind_walk, accept_of_lt _ hl, hkind]
      · simp [statement, hkind]
    | kwPrint =>
      apply hpass (tracks_printing he)
      · simp [Walk.statement, bind_walk, accept_of_lt _ hl, hkind]
      · simp [statement, hkind]
    | kwWhile =>
      apply hpass (tracks_whileLoop he h)
      · simp [Walk.statement, bind_walk, accept_of_lt _ hl, hkind]
      · simp [statement, hkind]
    | leftBrace =>
      apply hpass (hb.map Stmt.block)
      · simp [Walk.statement, bind_walk, accept_of_lt _ hl, hkind]
      · simp [statement, hkind]
    | _ =>
      have hw : Walk.statement (k + 1) tape.tokens i =
          Walk.expressionStatement (Walk.expression (k + 1)) tape.tokens i := by
        simp [Walk.statement, bind_walk, accept_of_lt _ hl, hkind]
      have hs : Rule.NoneNext startsKeyword (tape.body.drop i) :=
        hd ▸ Rule.noneNext_cons.2 (by rw [hkind]; rfl)
      rw [hw, statement_of_noneNext hs]
      exact hx i hi hn
  · rw [walk_statement_end, statement_of_noneNext (hd ▸ Rule.noneNext_nil)]
    exact hx _ hi hn

theorem tracks_statement {k : Nat} (hk : n < k) :
    tape.Tracks (n + 1) (Walk.statement k) (statement n) := by
  obtain ⟨k, rfl⟩ : ∃ k', k = k' + 1 := ⟨k - 1, by omega⟩
  induction n generalizing k with
  | zero =>
    intro i hi hn
    obtain rfl : i = tape.body.length := by omega
    have he : tape.Tracks 1 (Walk.expression (k + 1)) (expression 0) := tracks_expression hk
    have hx := tracks_expressionStatement he _ hi hn
    have hs : statement 0 (tape.body.drop tape.body.length) =
        expressionStatement (expression 0) (tape.body.drop tape.body.length) := by
      rw [List.drop_length, statement_nil_eq, expressionStatement, Rule.bind_apply, expression_nil]
    rwa [walk_statement_end, hs]
  | succ n ih =>
    obtain ⟨k, rfl⟩ : ∃ k', k = k' + 1 := ⟨k - 1, by omega⟩
    exact tracks_statement_succ (ih k (by omega)) (by omega)

end Tape

end Lox.Grammar
