import Lox.Proofs.Grammar.Passage

namespace Lox.Grammar

/-- Where the rule succeeds, what it passes can be read as what it gives. -/
def Sound {α : Type} (p : Rule α) (R : List Token → α → Prop) : Prop :=
  ∀ ⦃ts rest : List Token⦄ ⦃a : α⦄, p ts = .ok a rest → ∃ w, ts = w ++ rest ∧ R w a

theorem Reads.eq_singleton {l : Level} {w : List Token} {t : Token} (h : Reads l w (.name t))
    (hl : l ≠ .comma) : w = [t] ∧ t.kind = .identifier := by
  generalize he : Expr.name t = e at h
  induction h with
  | name h =>
    cases he
    exact ⟨rfl, h⟩
  | @operation l op v w a b hc _ _ _ _ _ =>
    cases l <;> simp [Level.combine] at he hl
  | @tighter l w e _ ih =>
    exact ih (by cases l <;> simp [Level.tighter]) he
  | literal | grouping | unary | assign => simp at he

section Expressions

variable {expr : Rule Expr}

theorem primary_sound (h : Sound expr (Reads .comma)) : Sound (primary expr) (Reads .primary) := by
  intro ts rest e hp
  cases ts with
  | nil => exact absurd hp primary_nil
  | cons t ts =>
    obtain ⟨v, hv, rfl, rfl⟩ | ⟨hk, rfl, rfl⟩ | ⟨hk, hg⟩ := primary_cons_eq_ok.1 hp
    · exact ⟨[t], rfl, .literal hv⟩
    · exact ⟨[t], rfl, .name hk⟩
    · obtain ⟨inner, closing, he, hc, rfl⟩ := grouping_eq_ok.1 hg
      obtain ⟨w, rfl, hw⟩ := h he
      exact ⟨t :: w ++ [closing], by simp, .grouping hk hw hc⟩

theorem unary_sound (h : Sound expr (Reads .comma)) : Sound (unary expr) (Reads .unary) := by
  intro ts rest e hp
  induction ts generalizing e with
  | nil => exact absurd hp unary_nil
  | cons t ts ih =>
    obtain ⟨hu, right, hr, rfl⟩ | ⟨_, hq⟩ := unary_cons_eq_ok.1 hp
    · obtain ⟨w, rfl, hw⟩ := ih hr
      exact ⟨t :: w, rfl, .unary hu hw⟩
    · obtain ⟨w, hts, hw⟩ := primary_sound h hq
      exact ⟨w, hts, .tighter hw⟩

theorem chainFrom_sound {l : Level} (hl : l.isChain = true) (h : Sound expr (Reads l.tighter)) {n : Nat}
    {left e : Expr} {v ts rest : List Token} (hv : Reads l v left)
    (hp : chainFrom expr l.isOperator l.combine n left ts = .ok e rest) :
    ∃ w, ts = w ++ rest ∧ Reads l (v ++ w) e := by
  induction n generalizing left v ts with
  | zero =>
    obtain ⟨rfl, rfl⟩ := chainFrom_zero_eq_ok.1 hp
    exact ⟨[], rfl, by simpa using hv⟩
  | succ n ih =>
    obtain ⟨_, rfl, rfl⟩ | ⟨op, mid, right, mid', rfl, ho, hr, hn⟩ := chainFrom_succ_eq_ok.1 hp
    · exact ⟨[], rfl, by simpa using hv⟩
    · obtain ⟨u, rfl, hu⟩ := h hr
      obtain ⟨w, rfl, hw⟩ := ih (.operation hl hv ho hu) hn
      exact ⟨op :: u ++ w, by simp, by simpa using hw⟩

theorem chain_sound {l : Level} (hl : l.isChain = true) (h : Sound expr (Reads l.tighter)) (n : Nat) :
    Sound (chain expr l.isOperator l.combine n) (Reads l) := by
  intro ts rest e hp
  obtain ⟨left, mid, hf, hc⟩ := chain_eq_ok.1 hp
  obtain ⟨v, rfl, hv⟩ := h hf
  obtain ⟨w, rfl, hw⟩ := chainFrom_sound hl h (.tighter hv) hc
  exact ⟨v ++ w, by simp, hw⟩

theorem assignment_sound (h : Sound expr (Reads .disjunction)) (n : Nat) :
    Sound (assignment expr n) (Reads .assignment) := by
  intro ts rest e hp
  induction n generalizing ts e with
  | zero =>
    obtain ⟨w, hts, hw⟩ := h hp
    exact ⟨w, hts, .tighter hw⟩
  | succ n ih =>
    obtain ⟨ho, _⟩ | ⟨target, equals, mid, right, ho, hq, hr, rfl⟩ := assignment_succ_eq_ok.1 hp
    · obtain ⟨w, hts, hw⟩ := h ho
      exact ⟨w, hts, .tighter hw⟩
    · obtain ⟨v, rfl, hv⟩ := h ho
      obtain ⟨rfl, ht⟩ := hv.eq_singleton (by simp)
      obtain ⟨w, rfl, hw⟩ := ih hr
      exact ⟨target :: equals :: w, rfl, .assign ht hq hw⟩

end Expressions

theorem rule_sound (n : Nat) (l : Level) (hl : l.isChain = true)
    (h : Sound (l.tighter.rule n) (Reads l.tighter)) : Sound (l.rule n) (Reads l) := by
  rw [Level.rule_of_isChain n hl]
  exact chain_sound hl h (n + 1)

theorem expression_sound (n : Nat) : Sound (expression n) (Reads .comma) := by
  induction n with
  | zero =>
    intro ts rest e hp
    exact absurd hp Rule.fail_ne_ok
  | succ n ih =>
    have hf := rule_sound n .factor rfl (unary_sound ih)
    have ht := rule_sound n .term rfl hf
    have hc := rule_sound n .comparison rfl ht
    have he := rule_sound n .equality rfl hc
    have hj := rule_sound n .conjunction rfl he
    have hd := rule_sound n .disjunction rfl hj
    exact rule_sound n .comma rfl (assignment_sound hd (n + 1))

section Statements

variable {expr : Rule Expr} {stmt : Rule Stmt} {ts rest : List Token} {s : Stmt}

theorem declaration_sound (h : Sound expr (Reads .comma)) :
    Sound (declaration expr) ReadsDeclaration := by
  intro ts rest s hp
  obtain ⟨name, mid, rfl, hn, ⟨semi, rfl, hs, rfl⟩ | ⟨equals, mid', e, semi, rfl, hq, he, hs, rfl⟩⟩ :=
    declaration_eq_ok.1 hp
  · exact ⟨[name, semi], rfl, .plain hn hs⟩
  · obtain ⟨w, rfl, hw⟩ := h he
    exact ⟨name :: equals :: w ++ [semi], by simp, .valued hn hq hw hs⟩

theorem firstClause_sound (h : Sound expr (Reads .comma)) : Sound (firstClause expr) ReadsFirst := by
  intro ts rest first hp
  obtain ⟨semi, rfl, hs, rfl⟩ | ⟨var, mid, s, rfl, hv, hd, rfl⟩ | ⟨_, s, hx, rfl⟩ :=
    firstClause_eq_ok.1 hp
  · exact ⟨[semi], rfl, .none hs⟩
  · obtain ⟨w, rfl, hw⟩ := declaration_sound h hd
    exact ⟨var :: w, rfl, .declaration hv hw⟩
  · obtain ⟨e, semi, he, hs, rfl⟩ := expressionStatement_eq_ok.1 hx
    obtain ⟨w, rfl, hw⟩ := h he
    exact ⟨w ++ [semi], by simp, .expression hw hs⟩

theorem unlessNext_sound (h : Sound expr (Reads .comma)) (kind : Kind) :
    Sound (Rule.unlessNext kind expr) ReadsClause := by
  intro ts rest clause hp
  cases clause with
  | none =>
    obtain ⟨rfl, _⟩ := Rule.unlessNext_eq_none.1 hp
    exact ⟨[], rfl, .none⟩
  | some e =>
    obtain ⟨w, rfl, hw⟩ := h (Rule.unlessNext_eq_some.1 hp).2
    exact ⟨w, rfl, .some hw⟩

/-- As `Sound`, for statements: one to which an `else` would belong is not followed by any. -/
def SoundStatement (p : Rule Stmt) : Prop :=
  ∀ ⦃ts rest : List Token⦄ ⦃s : Stmt⦄, p ts = .ok s rest →
    ∃ w isOpen, ts = w ++ rest ∧ ReadsPhrase w (.statement isOpen s) ∧
      (isOpen = true → Rule.NoneNext (· == .kwElse) rest)

theorem conditional_sound (he : Sound expr (Reads .comma)) (hs : SoundStatement stmt) {kw : Token}
    (hk : kw.kind = .kwIf) (hp : conditional expr stmt ts = .ok s rest) :
    ∃ w isOpen, kw :: ts = w ++ rest ∧ ReadsPhrase w (.statement isOpen s) ∧
      (isOpen = true → Rule.NoneNext (· == .kwElse) rest) := by
  obtain ⟨opening, mid, c, closing, mid', yes, mid'', rfl, ho, hc, hr, hy, h⟩ := conditional_eq_ok.1 hp
  obtain ⟨v, rfl, hv⟩ := he hc
  obtain ⟨w, isOpen, rfl, hw, hn⟩ := hs hy
  obtain ⟨hn', rfl, rfl⟩ | ⟨other, mid''', no, rfl, hl, hno, rfl⟩ := h
  · exact ⟨kw :: opening :: v ++ closing :: w, true, by simp, .ifThen hk ho hv hr hw, fun _ => hn'⟩
  · -- the `else` was left by the first branch, so that one is closed
    have hw' : ReadsPhrase w (.statement false yes) := by
      cases isOpen with
      | false => exact hw
      | true => simpa [Rule.noneNext_cons, hl] using hn rfl
    obtain ⟨w', isOpen', rfl, hno, hn'⟩ := hs hno
    exact ⟨kw :: opening :: v ++ closing :: (w ++ other :: w'), isOpen', by simp,
      .ifElse hk ho hv hr hw' hl hno, hn'⟩

theorem whileLoop_sound (he : Sound expr (Reads .comma)) (hs : SoundStatement stmt) {kw : Token}
    (hk : kw.kind = .kwWhile) (hp : whileLoop expr stmt ts = .ok s rest) :
    ∃ w isOpen, kw :: ts = w ++ rest ∧ ReadsPhrase w (.statement isOpen s) ∧
      (isOpen = true → Rule.NoneNext (· == .kwElse) rest) := by
  obtain ⟨opening, mid, c, closing, mid', body, rfl, ho, hc, hr, hb, rfl⟩ := whileLoop_eq_ok.1 hp
  obtain ⟨v, rfl, hv⟩ := he hc
  obtain ⟨w, isOpen, rfl, hw, hn⟩ := hs hb
  exact ⟨kw :: opening :: v ++ closing :: w, isOpen, by simp, .whileLoop hk ho hv hr hw, hn⟩

theorem forLoop_sound (he : Sound expr (Reads .comma)) (hs : SoundStatement stmt) {kw : Token}
    (hk : kw.kind = .kwFor) (hp : forLoop expr stmt ts = .ok s rest) :
    ∃ w isOpen, kw :: ts = w ++ rest ∧ ReadsPhrase w (.statement isOpen s) ∧
      (isOpen = true → Rule.NoneNext (· == .kwElse) rest) := by
  obtain ⟨opening, mid, first, mid', condition, semi, mid'', step, closing, mid''', body,
    rfl, ho, hf, hc, hm, ht, hr, hb, rfl⟩ := forLoop_eq_ok.1 hp
  obtain ⟨u, rfl, hu⟩ := firstClause_sound he hf
  obtain ⟨v, rfl, hv⟩ := unlessNext_sound he _ hc
  obtain ⟨v', rfl, hv'⟩ := unlessNext_sound he _ ht
  obtain ⟨w, isOpen, rfl, hw, hn⟩ := hs hb
  exact ⟨kw :: opening :: u ++ v ++ semi :: v' ++ closing :: w, isOpen, by simp,
    .forLoop hk ho hu hv hm hv' hr hw, hn⟩

theorem item_sound (he : Sound expr (Reads .comma)) (hs : SoundStatement stmt) :
    Sound (item expr stmt) fun w s => ReadsPhrase w (.items [s]) := by
  intro ts rest s hp
  cases ts with
  | nil =>
    obtain ⟨w, isOpen, hw, h, _⟩ := hs (show stmt [] = .ok s rest from hp)
    exact ⟨w, hw, by simpa using ReadsPhrase.statement h .nil⟩
  | cons t ts =>
    obtain ⟨hv, hd⟩ | ⟨_, hq⟩ := item_cons_eq_ok.1 hp
    · obtain ⟨w, rfl, hw⟩ := declaration_sound he hd
      exact ⟨t :: w, rfl, by simpa using ReadsPhrase.declaration hv hw .nil⟩
    · obtain ⟨w, isOpen, hw, h, _⟩ := hs hq
      exact ⟨w, hw, by simpa using ReadsPhrase.statement h .nil⟩

theorem blockBody_sound (he : Sound expr (Reads .comma)) (hs : SoundStatement stmt) {n : Nat}
    {ss : List Stmt} (hp : blockBody expr stmt n ts = .ok ss rest) :
    ∃ w closing, ts = w ++ closing :: rest ∧ closing.kind = .rightBrace ∧ ReadsPhrase w (.items ss) := by
  induction n generalizing ts ss with
  | zero =>
    obtain ⟨closing, rfl, hc, rfl⟩ := blockBody_zero_eq_ok.1 hp
    exact ⟨[], closing, rfl, hc, .nil⟩
  | succ n ih =>
    cases ts with
    | nil => exact absurd hp blockBody_nil
    | cons t ts =>
      obtain ⟨hc, rfl, rfl⟩ | ⟨_, s, mid, ss', hi, hb, rfl⟩ := blockBody_cons_eq_ok.1 hp
      · exact ⟨[], t, rfl, hc, .nil⟩
      · obtain ⟨w, hts, h⟩ := item_sound he hs hi
        obtain ⟨w', closing, rfl, hc, hw'⟩ := ih hb
        exact ⟨w ++ w', closing, by simp [hts], hc, h.append hw'⟩

theorem statement_sound (n : Nat) : SoundStatement (statement n) := by
  induction n with
  | zero =>
    intro ts rest s hp
    exact absurd hp statement_zero
  | succ n ih =>
    intro ts rest s hp
    have he := expression_sound n
    cases ts with
    | nil => exact absurd hp statement_nil
    | cons t ts =>
      rcases statement_cons_eq_ok.1 hp with
        ⟨hk, h⟩ | ⟨hk, h⟩ | ⟨hk, h⟩ | ⟨hk, h⟩ | ⟨hk, ss, h, rfl⟩ | ⟨_, h⟩
      · exact forLoop_sound he ih hk h
      · exact conditional_sound he ih hk h
      · obtain ⟨e, semi, hx, hs, rfl⟩ := printing_eq_ok.1 h
        obtain ⟨w, rfl, hw⟩ := he hx
        exact ⟨t :: w ++ [semi], false, by simp, .print hk hw hs, by simp⟩
      · exact whileLoop_sound he ih hk h
      · obtain ⟨w, closing, rfl, hc, hw⟩ := blockBody_sound he ih h
        exact ⟨t :: w ++ [closing], false, by simp, .block hk hw hc, by simp⟩
      · obtain ⟨e, semi, hx, hs, rfl⟩ := expressionStatement_eq_ok.1 h
        obtain ⟨w, hts, hw⟩ := expression_sound (n + 1) hx
        exact ⟨w ++ [semi], false, by simp [hts], .expression hw hs, by simp⟩

end Statements

/-- The statements of a program are read of tokens next to each other, also where others of it have
failed. -/
theorem exists_reads_of_mem_program {stop : Token} {n : Nat} {ts : List Token} {s : Stmt}
    (hs : .ok s ∈ program stop n ts) : ∃ w, w <:+: ts ∧ ReadsPhrase w (.items [s]) := by
  induction n generalizing ts with
  | zero => cases ts <;> cases hs
  | succ n ih =>
    cases ts with
    | nil => cases hs
    | cons t ts =>
      have hf := forward_item (forward_expression n) (forward_statement (n + 1)) (t :: ts)
      rw [program] at hs
      cases hi : item (expression n) (statement (n + 1)) (t :: ts) with
      | ok s' rest =>
        obtain ⟨w, hw, hr⟩ := item_sound (expression_sound n) (statement_sound (n + 1)) hi
        rw [hi] at hs
        obtain he | hs := List.mem_cons.1 hs
        · cases he
          exact ⟨w, hw ▸ (List.prefix_append w rest).isInfix, hr⟩
        · obtain ⟨v, hv, hr⟩ := ih hs
          exact ⟨v, hv.trans (hw ▸ (List.suffix_append w rest).isInfix), hr⟩
      | fail fault rest =>
        rw [hi] at hs hf
        cases hf with
        | @fail w _ _ hw _ =>
          obtain he | hs := List.mem_cons.1 hs
          · cases he
          · obtain ⟨v, hv, hr⟩ := ih hs
            have hrest : recover rest <:+ t :: ts :=
              (recover_suffix_self rest).trans (hw ▸ List.suffix_append w rest)
            exact ⟨v, hv.trans hrest.isInfix, hr⟩

theorem exists_reads_of_mem_parse {tokens : List Token} {s : Stmt} (hs : s ∈ (parse tokens).statements) :
    ∃ w, w <:+: tokens.takeWhile (fun t => !t.isEof) ∧ ReadsPhrase w (.items [s]) := by
  obtain ⟨r, hr, he⟩ := List.mem_filterMap.1 hs
  cases r with
  | error e => cases he
  | ok s' =>
    cases he
    exact exists_reads_of_mem_program hr

end Lox.Grammar
