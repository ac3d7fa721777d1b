import Lox.Proofs.Grammar.Reading

namespace Lox.Grammar

def brackets : List (Kind × Kind) := [(.leftParen, .rightParen), (.leftBrace, .rightBrace)]

def isBracket (k : Kind) : Bool := brackets.any fun (o, c) => k == o || k == c

inductive Nested : List Kind → Prop
  | nil : Nested []
  | mark {k : Kind} {w : List Kind} (hk : isBracket k = false) (h : Nested w) : Nested (k :: w)
  | enclosed {o c : Kind} {v w : List Kind} (hb : (o, c) ∈ brackets) (hv : Nested v) (hw : Nested w) :
      Nested (o :: v ++ c :: w)

theorem Nested.append {v w : List Kind} (hv : Nested v) (hw : Nested w) : Nested (v ++ w) := by
  induction hv with
  | nil => exact hw
  | mark hk _ ih => exact .mark hk ih
  | enclosed hb hv _ _ ih =>
    rw [List.append_assoc]
    exact .enclosed hb hv ih

/-- As many marks are closed as are opened, and nowhere have more been closed than opened so far. -/
structure Balanced (o c : Kind) (w : List Kind) : Prop where
  count_eq : w.count o = w.count c
  count_le : ∀ v, v <+: w → v.count c ≤ v.count o

theorem balanced_nil (o c : Kind) : Balanced o c [] where
  count_eq := rfl
  count_le v hv := by rw [List.prefix_nil.1 hv]; exact Nat.le_refl _

theorem Balanced.append {o c : Kind} {v w : List Kind} (hv : Balanced o c v) (hw : Balanced o c w) :
    Balanced o c (v ++ w) where
  count_eq := by rw [List.count_append, List.count_append, hv.count_eq, hw.count_eq]
  count_le u hu := by
    obtain hu | ⟨u, rfl⟩ := List.prefix_or_prefix_of_prefix hu (List.prefix_append v w)
    · exact hv.count_le u hu
    · have h := hw.count_le u ((List.prefix_append_right_inj v).1 hu)
      rw [List.count_append, List.count_append, hv.count_eq]
      omega

theorem balanced_mark {o c k : Kind} (ho : k ≠ o) (hc : k ≠ c) : Balanced o c [k] where
  count_eq := by simp [ho, hc]
  count_le v hv := by
    have hm : c ∉ v := fun h => hc (List.mem_singleton.1 (hv.subset h)).symm
    rw [List.count_eq_zero.2 hm]
    exact Nat.zero_le _

theorem Balanced.enclosed {o c : Kind} {w : List Kind} (hne : o ≠ c) (h : Balanced o c w) :
    Balanced o c (o :: w ++ [c]) where
  count_eq := by simp [h.count_eq, hne, hne.symm]
  count_le u hu := by
    obtain rfl | ⟨v, rfl, hv⟩ := List.prefix_cons_iff.1 hu
    · exact Nat.le_refl _
    · -- the mark that closes the word is paid for by the one that opens it
      have hle : v.count c ≤ v.count o + 1 := by
        obtain rfl | hv := List.prefix_concat_iff.1 hv
        · simp [h.count_eq, hne.symm]
        · have := h.count_le v hv
          omega
      simpa [hne] using hle

theorem Nested.balanced {o c : Kind} {w : List Kind} (h : Nested w) (hb : (o, c) ∈ brackets) :
    Balanced o c w := by
  have hdistinct : ∀ p ∈ brackets, ∀ q ∈ brackets,
      p.1 ≠ q.2 ∧ (p = q ∨ p.1 ≠ q.1 ∧ p.2 ≠ q.1 ∧ p.2 ≠ q.2) := by decide
  have hbracket : ∀ p ∈ brackets, isBracket p.1 = true ∧ isBracket p.2 = true := by decide
  induction h with
  | nil => exact balanced_nil o c
  | @mark k w hk _ ih =>
    have hne : ∀ {k' : Kind}, isBracket k' = true → k ≠ k' := fun hk' he => by
      rw [he, hk'] at hk
      cases hk
    obtain ⟨ho, hc⟩ := hbracket _ hb
    exact (balanced_mark (hne ho) (hne hc)).append ih
  | @enclosed o' c' v w hb' _ _ ihv ihw =>
    have hw : o' :: v ++ c' :: w = (o' :: v ++ [c']) ++ w := by simp
    rw [hw]
    obtain ⟨hoc, heq | ⟨hoo, hco, hcc⟩⟩ := hdistinct _ hb' _ hb
    · cases heq
      exact (ihv.enclosed (hdistinct _ hb _ hb).1).append ihw
    · exact (((balanced_mark hoo hoc).append ihv).append (balanced_mark hco hcc)).append ihw

section Tokens

variable {t opening closing : Token} {v w : List Token}

theorem nested_cons (ht : isBracket t.kind = false) (h : Nested (w.map Token.kind)) :
    Nested ((t :: w).map Token.kind) := .mark ht h

theorem nested_append (hv : Nested (v.map Token.kind)) (hw : Nested (w.map Token.kind)) :
    Nested ((v ++ w).map Token.kind) := by
  rw [List.map_append]
  exact hv.append hw

theorem nested_concat (hv : Nested (v.map Token.kind)) (ht : isBracket t.kind = false) :
    Nested ((v ++ [t]).map Token.kind) := nested_append hv (nested_cons ht .nil)

theorem nested_parentheses (ho : opening.kind = .leftParen) (hv : Nested (v.map Token.kind))
    (hc : closing.kind = .rightParen) (hw : Nested (w.map Token.kind)) :
    Nested ((opening :: v ++ closing :: w).map Token.kind) := by
  rw [List.map_append, List.map_cons, List.map_cons, ho, hc]
  exact .enclosed (by decide) hv hw

theorem nested_braces (ho : opening.kind = .leftBrace) (hv : Nested (v.map Token.kind))
    (hc : closing.kind = .rightBrace) : Nested ((opening :: v ++ [closing]).map Token.kind) := by
  rw [List.map_append, List.map_cons, List.map_cons, ho, hc]
  exact .enclosed (by decide) hv .nil

end Tokens

theorem isBracket_of_eq {k k' : Kind} (h : k = k') (hk : isBracket k' = false) :
    isBracket k = false := h ▸ hk

theorem isBracket_of_literal? {t : Token} {v : Value} (h : literal? t = some v) :
    isBracket t.kind = false := by
  unfold literal? at h
  split at h
  case h_6 => cases h
  all_goals exact isBracket_of_eq ‹_› rfl

theorem isBracket_of_isUnary {k : Kind} (h : isUnary k = true) : isBracket k = false := by
  cases k <;> first | rfl | cases h

theorem isBracket_of_isOperator {l : Level} {k : Kind} (hl : l.isChain = true)
    (h : l.isOperator k = true) :
    isBracket k = false := by
  rw [Level.isOperator, beq_iff_eq] at h
  subst h
  cases k <;> first | rfl | cases hl

theorem Reads.nested {l : Level} {w : List Token} {e : Expr} (h : Reads l w e) :
    Nested (w.map Token.kind) := by
  induction h with
  | literal h => exact nested_cons (isBracket_of_literal? h) .nil
  | name h => exact nested_cons (isBracket_of_eq h rfl) .nil
  | grouping ho _ hc ih => exact nested_parentheses ho ih hc .nil
  | unary ho _ ih => exact nested_cons (isBracket_of_isUnary ho) ih
  | assign ht hq _ ih =>
    exact nested_cons (isBracket_of_eq ht rfl) (nested_cons (isBracket_of_eq hq rfl) ih)
  | operation hl _ ho _ iha ihb =>
    exact nested_append iha (nested_cons (isBracket_of_isOperator hl ho) ihb)
  | tighter _ ih => exact ih

theorem ReadsDeclaration.nested {w : List Token} {s : Stmt} (h : ReadsDeclaration w s) :
    Nested (w.map Token.kind) := by
  cases h with
  | plain hn hs => exact nested_cons (isBracket_of_eq hn rfl) (nested_cons (isBracket_of_eq hs rfl) .nil)
  | valued hn hq h hs =>
    exact nested_concat
      (nested_cons (isBracket_of_eq hn rfl) (nested_cons (isBracket_of_eq hq rfl) h.nested))
      (isBracket_of_eq hs rfl)

theorem ReadsFirst.nested {w : List Token} {first : Option Stmt} (h : ReadsFirst w first) :
    Nested (w.map Token.kind) := by
  cases h with
  | none hs => exact nested_cons (isBracket_of_eq hs rfl) .nil
  | declaration hv h => exact nested_cons (isBracket_of_eq hv rfl) h.nested
  | expression h hs => exact nested_concat h.nested (isBracket_of_eq hs rfl)

theorem ReadsClause.nested {w : List Token} {clause : Option Expr} (h : ReadsClause w clause) :
    Nested (w.map Token.kind) := by
  cases h with
  | none => exact .nil
  | some h => exact h.nested

theorem ReadsPhrase.nested {w : List Token} {p : Phrase} (h : ReadsPhrase w p) :
    Nested (w.map Token.kind) := by
  induction h with
  | expression h hs => exact nested_concat h.nested (isBracket_of_eq hs rfl)
  | print hp h hs =>
    exact nested_concat (nested_cons (isBracket_of_eq hp rfl) h.nested) (isBracket_of_eq hs rfl)
  | block ho _ hc ih => exact nested_braces ho ih hc
  | ifThen hk ho he hc _ ih | whileLoop hk ho he hc _ ih =>
    exact nested_cons (isBracket_of_eq hk rfl) (nested_parentheses ho he.nested hc ih)
  | ifElse hk ho he hc _ hl _ ih ih' =>
    exact nested_cons (isBracket_of_eq hk rfl) (nested_parentheses ho he.nested hc
      (nested_append ih (nested_cons (isBracket_of_eq hl rfl) ih')))
  | @forLoop kw opening semi closing u v v' w _ _ _ _ _ hk ho hf he hs hp hc _ ih =>
    have hclauses : Nested ((u ++ (v ++ semi :: v')).map Token.kind) :=
      nested_append hf.nested (nested_append he.nested (nested_cons (isBracket_of_eq hs rfl) hp.nested))
    have hshape : kw :: opening :: u ++ v ++ semi :: v' ++ closing :: w =
        kw :: (opening :: (u ++ (v ++ semi :: v')) ++ closing :: w) := by simp
    rw [hshape]
    exact nested_cons (isBracket_of_eq hk rfl) (nested_parentheses ho hclauses hc ih)
  | nil => exact .nil
  | declaration hv h _ ih => exact nested_append (nested_cons (isBracket_of_eq hv rfl) h.nested) ih
  | statement _ _ ih ih' => exact nested_append ih ih'

end Lox.Grammar
