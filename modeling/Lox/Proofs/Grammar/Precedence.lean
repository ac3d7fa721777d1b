import Lox.Proofs.Grammar.Reading

namespace Lox.Grammar

namespace Level

theorem lt_of_tighter_le {l m : Level} (hl : l ≠ .primary) (h : l.tighter ≤ m) : l < m := by
  have hr := rank_tighter hl
  have hm : l.tighter.rank ≤ m.rank := h
  change l.rank < m.rank
  omega

theorem le_of_tighter_le {l m : Level} (h : l.tighter ≤ m) : l ≤ m := by
  by_cases hl : l = .primary
  · subst hl
    exact h
  · exact Nat.le_of_lt (lt_of_tighter_le hl h)

theorem comma_le (l : Level) : comma ≤ l := Nat.zero_le _

theorem le_refl (l : Level) : l ≤ l := Nat.le_refl _

theorem combine_of_isOperator {l : Level} {k : Kind} (hl : l.isChain = true) (hc : l ≠ .comma)
    (hk : l.isOperator k = true) :
    isBinary k = true ∧ l.combine = .binary ∨ isLogical k = true ∧ l.combine = .logical := by
  have hk : ofOperator k = l := by simpa [isOperator] using hk
  subst hk
  revert hl hc
  cases k <;>
    simp [ofOperator, isChain, isBinary, isLogical, isEquality, isComparison, isTerm, isFactor, combine]

end Level

def Binds (l : Level) (e : Expr) : Prop := e.isWellShaped = true ∧ l ≤ e.level

theorem Binds.combine {l : Level} {op : Token} {a b : Expr} (hl : l.isChain = true)
    (ho : l.isOperator op.kind = true) (ha : Binds l a) (hb : Binds l.tighter b) :
    Binds l (l.combine a op b) := by
  have hlt : l < b.level := Level.lt_of_tighter_le (Level.ne_primary_of_isChain hl) hb.2
  have hop : Level.ofOperator op.kind = l := by simpa [Level.isOperator] using ho
  by_cases hc : l = .comma
  · subst hc
    exact ⟨hb.1, Level.comma_le _⟩
  · obtain ⟨hk, h⟩ | ⟨hk, h⟩ := Level.combine_of_isOperator hl hc ho
    all_goals
      rw [h]
      refine ⟨?_, ?_⟩
      · simp [Expr.isWellShaped, hk, hop, ha.1, ha.2, hb.1, hlt]
      · simp [Expr.level, hop, Level.le_refl]

theorem Reads.binds {l : Level} {w : List Token} {e : Expr} (h : Reads l w e) : Binds l e := by
  induction h with
  | literal _ => exact ⟨rfl, Level.le_refl _⟩
  | name h => exact ⟨by simp [Expr.isWellShaped, h], Level.le_refl _⟩
  | grouping _ _ _ ih => exact ⟨by simp [Expr.isWellShaped, ih.1], Level.le_refl _⟩
  | unary ho _ ih => exact ⟨by simp [Expr.isWellShaped, ho, ih.1, ih.2], Level.le_refl _⟩
  | assign ht _ _ ih => exact ⟨by simp [Expr.isWellShaped, ht, ih.1], Level.le_refl _⟩
  | operation hl _ ho _ iha ihb => exact .combine hl ho iha ihb
  | tighter _ ih => exact ⟨ih.1, Level.le_of_tighter_le ih.2⟩

/-- Whether the statements of a phrase are well-shaped, and one that need not be open ends open
nowhere. -/
def Phrase.IsShaped : Phrase → Prop
  | .statement isOpen s => s.isWellShaped = true ∧ s.isDeclaration = false ∧
      (s.endsOpen = true → isOpen = true)
  | .items ss => Stmt.areWellShaped ss = true

theorem ReadsDeclaration.isWellShaped {w : List Token} {s : Stmt} (h : ReadsDeclaration w s) :
    s.isWellShaped = true := by
  cases h with
  | plain hn _ => simp [Stmt.isWellShaped, Expr.isWellShaped, hn]
  | valued hn _ h _ => simp [Stmt.isWellShaped, hn, h.binds.1]

theorem ReadsFirst.isWellShaped {w : List Token} {s : Stmt} (h : ReadsFirst w (some s)) :
    s.isWellShaped = true := by
  cases h with
  | declaration _ h => exact h.isWellShaped
  | expression h _ => simp [Stmt.isWellShaped, h.binds.1]

theorem ReadsClause.isWellShaped {w : List Token} {e : Expr} (h : ReadsClause w (Option.some e)) :
    e.isWellShaped = true := by
  cases h with
  | some h => exact h.binds.1

theorem Phrase.IsShaped.forLoop {first : Option Stmt} {condition step : Option Expr} {isOpen : Bool}
    {s : Stmt} (hf : ∀ t, first = some t → t.isWellShaped = true)
    (hc : ∀ e, condition = some e → e.isWellShaped = true)
    (hp : ∀ e, step = some e → e.isWellShaped = true) (hs : (Phrase.statement isOpen s).IsShaped) :
    (Phrase.statement isOpen (.forLoop first condition step s)).IsShaped := by
  obtain ⟨hw, hd, he⟩ := hs
  cases first <;> cases condition <;> cases step <;>
    simp_all [IsShaped, Stmt.forLoop, Stmt.isWellShaped, Stmt.areWellShaped, Expr.isWellShaped,
      Stmt.isDeclaration, Stmt.endsOpen]

theorem ReadsPhrase.isShaped {w : List Token} {p : Phrase} (h : ReadsPhrase w p) : p.IsShaped := by
  induction h with
  | expression h _ =>
    simp [Phrase.IsShaped, Stmt.isWellShaped, Stmt.isDeclaration, Stmt.endsOpen, h.binds.1]
  | print _ h _ =>
    simp [Phrase.IsShaped, Stmt.isWellShaped, Stmt.isDeclaration, Stmt.endsOpen, h.binds.1]
  | block _ _ _ ih =>
    exact ⟨by simpa [Phrase.IsShaped, Stmt.isWellShaped] using ih, rfl, by simp [Stmt.endsOpen]⟩
  | ifThen _ _ h _ _ ih =>
    obtain ⟨hw, hd, _⟩ := ih
    exact ⟨by simp [Stmt.isWellShaped, h.binds.1, hw, hd], rfl, fun _ => rfl⟩
  | ifElse _ _ h _ _ _ _ ih ih' =>
    obtain ⟨hw, hd, he⟩ := ih
    obtain ⟨hw', hd', he'⟩ := ih'
    have hn : Stmt.endsOpen _ = false := Bool.eq_false_iff.2 fun h => Bool.noConfusion (he h)
    exact ⟨by simp [Stmt.isWellShaped, h.binds.1, hw, hd, hn, hw', hd'], rfl, he'⟩
  | whileLoop _ _ h _ _ ih =>
    obtain ⟨hw, hd, he⟩ := ih
    exact ⟨by simp [Stmt.isWellShaped, h.binds.1, hw, hd], rfl, he⟩
  | forLoop _ _ hf hc _ hp _ _ ih =>
    refine .forLoop ?_ ?_ ?_ ih
    · rintro t rfl
      exact hf.isWellShaped
    · rintro e rfl
      exact hc.isWellShaped
    · rintro e rfl
      exact hp.isWellShaped
  | nil => rfl
  | declaration _ h _ ih => simpa [Phrase.IsShaped, Stmt.areWellShaped, h.isWellShaped] using ih
  | statement _ _ ih ih' => simpa [Phrase.IsShaped, Stmt.areWellShaped, ih.1] using ih'

end Lox.Grammar
