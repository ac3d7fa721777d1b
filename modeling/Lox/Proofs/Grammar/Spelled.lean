import Lox.Proofs.Grammar.Kept
import Lox.Proofs.Number.Numeral
import Lox.Proofs.Program.Reversed

namespace Lox

namespace Grammar

/-- The expression is read from some of the tokens, or stands where a value or a condition is left
out. -/
def IsRead (w : List Token) (e : Expr) : Prop :=
  e = .literal .nil ∨ e = .literal (.bool true) ∨ ∃ v, v ⊆ w ∧ Reads .comma v e

variable {v w : List Token} {e : Expr} {es : List Expr}

theorem Reads.isRead (h : Reads .comma v e) (hv : v ⊆ w) : IsRead w e := .inr (.inr ⟨v, hv, h⟩)

theorem IsRead.mono (h : IsRead v e) (hv : v ⊆ w) : IsRead w e := by
  obtain h | h | ⟨u, hu, h⟩ := h
  · exact .inl h
  · exact .inr (.inl h)
  · exact h.isRead (List.Subset.trans hu hv)

theorem ReadsDeclaration.isRead {s : Stmt} (h : ReadsDeclaration w s) :
    ∀ e ∈ s.expressions, IsRead w e := by
  cases h with
  | plain => exact List.forall_mem_singleton.2 (.inl rfl)
  | valued _ _ h _ => exact List.forall_mem_singleton.2 (h.isRead fun t ht => by simp [ht])

theorem ReadsFirst.isRead {s : Stmt} (h : ReadsFirst w (some s)) : ∀ e ∈ s.expressions, IsRead w e := by
  cases h with
  | declaration _ h => exact fun e he => (h.isRead e he).mono (List.subset_cons_self _ _)
  | expression h _ => exact List.forall_mem_singleton.2 (h.isRead fun t ht => by simp [ht])

theorem ReadsClause.isRead (h : ReadsClause w (Option.some e)) : IsRead w e := by
  cases h with
  | some h => exact h.isRead (List.Subset.refl _)

theorem isRead_forLoop {first : Option Stmt} {condition step : Option Expr} {s : Stmt}
    (hf : ∀ t, first = some t → ∀ e ∈ t.expressions, IsRead w e)
    (hc : ∀ e, condition = some e → IsRead w e) (hp : ∀ e, step = some e → IsRead w e)
    (hs : ∀ e ∈ s.expressions, IsRead w e) :
    ∀ e ∈ (Stmt.forLoop first condition step s).expressions, IsRead w e := by
  have hcondition : IsRead w (condition.getD (.literal (.bool true))) := by
    cases condition with
    | none => exact .inr (.inl rfl)
    | some c => exact hc c rfl
  have hloop : ∀ e ∈ (Stmt.forLoop none condition step s).expressions, IsRead w e := by
    cases step with
    | none => exact List.forall_mem_cons.2 ⟨hcondition, hs⟩
    | some p =>
      refine List.forall_mem_cons.2 ⟨hcondition, List.forall_mem_append.2 ⟨hs, ?_⟩⟩
      exact List.forall_mem_singleton.2 (hp p rfl)
  cases first with
  | none => exact hloop
  | some t =>
    refine List.forall_mem_append.2 ⟨hf t rfl, ?_⟩
    rw [Stmt.expressionsAll, Stmt.expressionsAll, List.append_nil]
    exact hloop

theorem ReadsPhrase.isRead {p : Phrase} (h : ReadsPhrase w p) : ∀ e ∈ p.expressions, IsRead w e := by
  induction h with
  | expression h _ => exact List.forall_mem_singleton.2 (h.isRead fun t ht => by simp [ht])
  | print _ h _ => exact List.forall_mem_singleton.2 (h.isRead fun t ht => by simp [ht])
  | block _ _ _ ih => exact fun e he => (ih e he).mono fun t ht => by simp [ht]
  | ifThen _ _ hc _ _ ih | whileLoop _ _ hc _ _ ih =>
    refine List.forall_mem_cons.2 ⟨hc.isRead fun t ht => by simp [ht], fun e he => ?_⟩
    exact (ih e he).mono fun t ht => by simp [ht]
  | ifElse _ _ hc _ _ _ _ ih ih' =>
    refine List.forall_mem_cons.2 ⟨hc.isRead fun t ht => by simp [ht], List.forall_mem_append.2 ⟨?_, ?_⟩⟩
    · exact fun e he => (ih e he).mono fun t ht => by simp [ht]
    · exact fun e he => (ih' e he).mono fun t ht => by simp [ht]
  | forLoop _ _ hf hc _ hp _ _ ih =>
    refine isRead_forLoop ?_ ?_ ?_ ?_
    · rintro t rfl e he
      exact (hf.isRead e he).mono fun t ht => by simp [ht]
    · rintro e rfl
      exact hc.isRead.mono fun t ht => by simp [ht]
    · rintro e rfl
      exact hp.isRead.mono fun t ht => by simp [ht]
    · exact fun e he => (ih e he).mono fun t ht => by simp [ht]
  | nil => exact List.forall_mem_nil _
  | declaration _ h _ ih =>
    refine List.forall_mem_append.2 ⟨?_, ?_⟩
    · exact fun e he => (h.isRead e he).mono fun t ht => by simp [ht]
    · exact fun e he => (ih e he).mono fun t ht => by simp [ht]
  | statement _ _ ih ih' =>
    refine List.forall_mem_append.2 ⟨?_, ?_⟩
    · exact fun e he => (ih e he).mono fun t ht => by simp [ht]
    · exact fun e he => (ih' e he).mono fun t ht => by simp [ht]

end Grammar

/-- Whether the entry is spelled with tokens of a source. -/
inductive Entry.IsSpelled : Entry → Prop
  | number {bits : Nat} (h : bits ≤ Number.infinity) : IsSpelled (.number (Number.ofMagnitude bits))
  | one {t : Token} (h : Lexeme t.lexeme.toList t.kind t.literal) (hk : Grammar.isUnary t.kind = true) :
      IsSpelled (.one t)
  | two {t : Token} (h : Lexeme t.lexeme.toList t.kind t.literal) (hk : Grammar.isBinary t.kind = true) :
      IsSpelled (.two t)

namespace Grammar

theorem isSpelled_of_literal? {t : Token} {v : Value} (ht : Lexeme t.lexeme.toList t.kind t.literal)
    (h : literal? t = some v) : ∀ x ∈ (Expr.literal v).entries, x.IsSpelled := by
  unfold literal? at h
  split at h
  case h_1 | h_2 | h_3 =>
    cases h
    exact List.forall_mem_nil _
  case h_4 hk =>
    obtain rfl := Option.some.inj h
    rw [hk] at ht
    obtain ⟨bits, hb, hv⟩ := ht.eq_num
    rw [hv]
    exact List.forall_mem_singleton.2 (.number hb)
  case h_5 hk =>
    obtain rfl := Option.some.inj h
    rw [hk] at ht
    obtain ⟨body, -, hv⟩ := ht.eq_str
    rw [hv]
    exact List.forall_mem_nil _
  case h_6 => cases h

theorem Reads.isSpelled {l : Level} {w : List Token} {e : Expr} (h : Reads l w e)
    (ht : ∀ t ∈ w, Lexeme t.lexeme.toList t.kind t.literal) : ∀ x ∈ e.entries, x.IsSpelled := by
  induction h with
  | @literal t v h => exact isSpelled_of_literal? (ht t (List.mem_singleton_self t)) h
  | name | assign => exact List.forall_mem_nil _
  | grouping _ _ _ ih => exact ih fun t hw => ht t (by simp [hw])
  | unary ho _ ih =>
    obtain ⟨hop, hw⟩ := List.forall_mem_cons.1 ht
    exact List.forall_mem_append.2 ⟨ih hw, List.forall_mem_singleton.2 (.one hop ho)⟩
  | @operation l op _ _ a b hl _ ho _ iha ihb =>
    simp only [List.forall_mem_append, List.forall_mem_cons] at ht
    obtain ⟨hv, hop, hw⟩ := ht
    have ha := iha hv
    have hb := ihb hw
    by_cases hc : l = .comma
    · subst hc
      exact hb
    · obtain ⟨hk, h⟩ | ⟨hk, h⟩ := Level.combine_of_isOperator hl hc ho
      · rw [h]
        exact List.forall_mem_append.2 ⟨ha,
          List.forall_mem_append.2 ⟨hb, List.forall_mem_singleton.2 (.two hop hk)⟩⟩
      · rw [h]
        exact List.forall_mem_nil _
  | tighter _ ih => exact ih ht

theorem IsRead.isSpelled {w : List Token} {e : Expr} (h : IsRead w e)
    (ht : ∀ t ∈ w, Lexeme t.lexeme.toList t.kind t.literal) : ∀ x ∈ e.entries, x.IsSpelled := by
  obtain rfl | rfl | ⟨v, hv, h⟩ := h
  · exact List.forall_mem_nil _
  · exact List.forall_mem_nil _
  · exact h.isSpelled fun t hm => ht t (hv hm)

end Grammar

end Lox
