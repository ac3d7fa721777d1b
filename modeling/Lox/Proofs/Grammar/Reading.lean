import Lox.Proofs.Grammar.Shape

namespace Lox.Grammar

namespace Level

def tighter : Level → Level
  | comma => assignment
  | assignment => disjunction
  | disjunction => conjunction
  | conjunction => equality
  | equality => comparison
  | comparison => term
  | term => factor
  | factor => unary
  | unary => primary
  | primary => primary

theorem rank_tighter {l : Level} (hl : l ≠ .primary) : l.tighter.rank = l.rank + 1 := by
  cases l <;> simp [rank, tighter] at *

theorem eq_of_rank_eq {l m : Level} (h : l.rank = m.rank) : l = m := by
  cases l <;> cases m <;> first | rfl | cases h

theorem looser_induction {P : Level → Prop} (step : ∀ l : Level, P l.tighter → P l) {l m : Level}
    (h : l ≤ m) (hm : P m) : P l := by
  obtain ⟨d, hd⟩ := Nat.le.dest h
  induction d generalizing l with
  | zero => rwa [eq_of_rank_eq hd]
  | succ d ih =>
    have hl : l ≠ .primary := by
      rintro rfl
      cases m <;> simp [rank] at hd <;> omega
    have ht := rank_tighter hl
    exact step l (ih (show l.tighter.rank ≤ m.rank by omega) (by omega))

def isChain : Level → Bool
  | assignment => false
  | unary => false
  | primary => false
  | _ => true

theorem ne_primary_of_isChain {l : Level} (hl : l.isChain = true) : l ≠ .primary := by
  rintro rfl
  simp [isChain] at hl

def isOperator (l : Level) (k : Kind) : Bool := ofOperator k == l

/-- The tree of two operands. Of operands with a comma between them the last one is kept. -/
def combine : Level → Expr → Token → Expr → Expr
  | comma => fun _ _ right => right
  | disjunction => .logical
  | conjunction => .logical
  | _ => .binary

def continues (l : Level) (k : Kind) : Bool := l ≤ ofOperator k && ofOperator k < .unary

end Level

/-- The tokens are an expression of the level, and this is its tree. -/
inductive Reads : Level → List Token → Expr → Prop
  | literal {t : Token} {v : Value} (h : literal? t = some v) : Reads .primary [t] (.literal v)
  | name {t : Token} (h : t.kind = .identifier) : Reads .primary [t] (.name t)
  | grouping {opening closing : Token} {w : List Token} {e : Expr} (ho : opening.kind = .leftParen)
      (h : Reads .comma w e) (hc : closing.kind = .rightParen) :
      Reads .primary (opening :: w ++ [closing]) (.grouping e)
  | unary {op : Token} {w : List Token} {e : Expr} (ho : isUnary op.kind = true) (h : Reads .unary w e) :
      Reads .unary (op :: w) (.unary op e)
  | assign {target equals : Token} {w : List Token} {e : Expr} (ht : target.kind = .identifier)
      (hq : equals.kind = .equal) (h : Reads .assignment w e) :
      Reads .assignment (target :: equals :: w) (.assign target e)
  | operation {l : Level} {op : Token} {v w : List Token} {a b : Expr} (hl : l.isChain = true)
      (ha : Reads l v a) (ho : l.isOperator op.kind = true) (hb : Reads l.tighter w b) :
      Reads l (v ++ op :: w) (l.combine a op b)
  | tighter {l : Level} {w : List Token} {e : Expr} (h : Reads l.tighter w e) : Reads l w e

theorem Reads.looser {l m : Level} {w : List Token} {e : Expr} (h : Reads m w e) (hl : l ≤ m) :
    Reads l w e :=
  Level.looser_induction (P := fun l => Reads l w e) (fun _ => .tighter) hl h

inductive ReadsDeclaration : List Token → Stmt → Prop
  | plain {name semi : Token} (hn : name.kind = .identifier) (hs : semi.kind = .semicolon) :
      ReadsDeclaration [name, semi] (.declare name (.literal .nil))
  | valued {name equals semi : Token} {w : List Token} {e : Expr} (hn : name.kind = .identifier)
      (hq : equals.kind = .equal) (h : Reads .comma w e) (hs : semi.kind = .semicolon) :
      ReadsDeclaration (name :: equals :: w ++ [semi]) (.declare name e)

inductive ReadsFirst : List Token → Option Stmt → Prop
  | none {semi : Token} (hs : semi.kind = .semicolon) : ReadsFirst [semi] none
  | declaration {var : Token} {w : List Token} {s : Stmt} (hv : var.kind = .kwVar)
      (h : ReadsDeclaration w s) : ReadsFirst (var :: w) (some s)
  | expression {semi : Token} {w : List Token} {e : Expr} (h : Reads .comma w e)
      (hs : semi.kind = .semicolon) : ReadsFirst (w ++ [semi]) (some (.expression e))

inductive ReadsClause : List Token → Option Expr → Prop
  | none : ReadsClause [] none
  | some {w : List Token} {e : Expr} (h : Reads .comma w e) : ReadsClause w (some e)

/-- What can be read besides expressions: a statement, of which it is known whether an `else` behind
it would belong to it, and a list of statements and declarations. -/
inductive Phrase
  | statement (isOpen : Bool) (s : Stmt)
  | items (ss : List Stmt)

inductive ReadsPhrase : List Token → Phrase → Prop
  | expression {w : List Token} {semi : Token} {e : Expr} (h : Reads .comma w e)
      (hs : semi.kind = .semicolon) : ReadsPhrase (w ++ [semi]) (.statement false (.expression e))
  | print {print semi : Token} {w : List Token} {e : Expr} (hp : print.kind = .kwPrint)
      (h : Reads .comma w e) (hs : semi.kind = .semicolon) :
      ReadsPhrase (print :: w ++ [semi]) (.statement false (.print e))
  | block {opening closing : Token} {w : List Token} {ss : List Stmt} (ho : opening.kind = .leftBrace)
      (h : ReadsPhrase w (.items ss)) (hc : closing.kind = .rightBrace) :
      ReadsPhrase (opening :: w ++ [closing]) (.statement false (.block ss))
  | ifThen {kw opening closing : Token} {v w : List Token} {c : Expr} {isOpen : Bool} {s : Stmt}
      (hk : kw.kind = .kwIf) (ho : opening.kind = .leftParen) (he : Reads .comma v c)
      (hc : closing.kind = .rightParen) (h : ReadsPhrase w (.statement isOpen s)) :
      ReadsPhrase (kw :: opening :: v ++ closing :: w) (.statement true (.ifThen c s))
  | ifElse {kw opening closing other : Token} {v w w' : List Token} {c : Expr} {isOpen : Bool}
      {s s' : Stmt} (hk : kw.kind = .kwIf) (ho : opening.kind = .leftParen) (he : Reads .comma v c)
      (hc : closing.kind = .rightParen) (h : ReadsPhrase w (.statement false s))
      (hl : other.kind = .kwElse) (h' : ReadsPhrase w' (.statement isOpen s')) :
      ReadsPhrase (kw :: opening :: v ++ closing :: (w ++ other :: w'))
        (.statement isOpen (.ifElse c s s'))
  | whileLoop {kw opening closing : Token} {v w : List Token} {c : Expr} {isOpen : Bool} {s : Stmt}
      (hk : kw.kind = .kwWhile) (ho : opening.kind = .leftParen) (he : Reads .comma v c)
      (hc : closing.kind = .rightParen) (h : ReadsPhrase w (.statement isOpen s)) :
      ReadsPhrase (kw :: opening :: v ++ closing :: w) (.statement isOpen (.whileLoop c s))
  | forLoop {kw opening semi closing : Token} {u v v' w : List Token} {first : Option Stmt}
      {condition step : Option Expr} {isOpen : Bool} {s : Stmt} (hk : kw.kind = .kwFor)
      (ho : opening.kind = .leftParen) (hf : ReadsFirst u first) (he : ReadsClause v condition)
      (hs : semi.kind = .semicolon) (hp : ReadsClause v' step) (hc : closing.kind = .rightParen)
      (h : ReadsPhrase w (.statement isOpen s)) :
      ReadsPhrase (kw :: opening :: u ++ v ++ semi :: v' ++ closing :: w)
        (.statement isOpen (.forLoop first condition step s))
  | nil : ReadsPhrase [] (.items [])
  | declaration {var : Token} {w w' : List Token} {s : Stmt} {ss : List Stmt} (hv : var.kind = .kwVar)
      (h : ReadsDeclaration w s) (h' : ReadsPhrase w' (.items ss)) :
      ReadsPhrase (var :: w ++ w') (.items (s :: ss))
  | statement {w w' : List Token} {isOpen : Bool} {s : Stmt} {ss : List Stmt}
      (h : ReadsPhrase w (.statement isOpen s)) (h' : ReadsPhrase w' (.items ss)) :
      ReadsPhrase (w ++ w') (.items (s :: ss))

theorem ReadsPhrase.append {w w' : List Token} {ss ss' : List Stmt} (h : ReadsPhrase w (.items ss))
    (h' : ReadsPhrase w' (.items ss')) : ReadsPhrase (w ++ w') (.items (ss ++ ss')) := by
  generalize hp : Phrase.items ss = p at h
  induction h generalizing ss with
  | nil =>
    cases hp
    exact h'
  | declaration hv hd _ ih =>
    cases hp
    rw [List.append_assoc]
    exact .declaration hv hd (ih rfl)
  | statement hs _ _ ih =>
    cases hp
    rw [List.append_assoc]
    exact .statement hs (ih rfl)
  | expression | print | block | ifThen | ifElse | whileLoop | forLoop => cases hp

theorem Reads.kind_ne_eof {l : Level} {w : List Token} {e : Expr} (h : Reads l w e) :
    ∀ t ∈ w, t.kind ≠ .eof := by
  induction h with
  | @literal t v h =>
    intro u hu hk
    rw [List.mem_singleton.1 hu] at hk
    simp [literal?, hk] at h
  | name h => simp [h]
  | grouping ho _ hc ih => simpa [ho, hc, or_imp, forall_and] using ih
  | @unary op w e ho _ ih =>
    have hop : op.kind ≠ .eof := fun hk => by simp [hk, isUnary] at ho
    simpa [hop] using ih
  | assign ht hq _ ih => simpa [ht, hq] using ih
  | @operation l op v w a b hl _ ho _ iha ihb =>
    have hop : op.kind ≠ .eof := fun hk => by
      rw [hk, Level.isOperator, beq_iff_eq] at ho
      subst ho
      exact absurd hl (by decide)
    intro t ht
    obtain ht | ht := List.mem_append.1 ht
    · exact iha t ht
    · obtain rfl | ht := List.mem_cons.1 ht
      · exact hop
      · exact ihb t ht
  | tighter _ ih => exact ih

theorem ReadsDeclaration.kind_ne_eof {w : List Token} {s : Stmt} (h : ReadsDeclaration w s) :
    ∀ t ∈ w, t.kind ≠ .eof := by
  cases h with
  | plain hn hs => simp [hn, hs]
  | valued hn hq h hs => simpa [hn, hq, hs, or_imp, forall_and] using h.kind_ne_eof

theorem ReadsFirst.kind_ne_eof {w : List Token} {first : Option Stmt} (h : ReadsFirst w first) :
    ∀ t ∈ w, t.kind ≠ .eof := by
  cases h with
  | none hs => simp [hs]
  | declaration hv h => simpa [hv] using h.kind_ne_eof
  | expression h hs => simpa [hs, or_imp, forall_and] using h.kind_ne_eof

theorem ReadsClause.kind_ne_eof {w : List Token} {clause : Option Expr} (h : ReadsClause w clause) :
    ∀ t ∈ w, t.kind ≠ .eof := by
  cases h with
  | none => simp
  | some h => exact h.kind_ne_eof

theorem ReadsPhrase.kind_ne_eof {w : List Token} {p : Phrase} (h : ReadsPhrase w p) :
    ∀ t ∈ w, t.kind ≠ .eof := by
  induction h with
  | expression h hs => simpa [hs, or_imp, forall_and] using h.kind_ne_eof
  | print hp h hs => simpa [hp, hs, or_imp, forall_and] using h.kind_ne_eof
  | block ho _ hc ih => simpa [ho, hc, or_imp, forall_and] using ih
  | ifThen hk ho he hc _ ih | whileLoop hk ho he hc _ ih =>
    simpa [hk, ho, hc, or_imp, forall_and] using ⟨he.kind_ne_eof, ih⟩
  | ifElse hk ho he hc _ hl _ ih ih' =>
    simpa [hk, ho, hc, hl, or_imp, forall_and] using ⟨he.kind_ne_eof, ih, ih'⟩
  | forLoop hk ho hf he hs hp hc _ ih =>
    simpa [hk, ho, hs, hc, or_imp, forall_and] using ⟨hf.kind_ne_eof, he.kind_ne_eof, hp.kind_ne_eof, ih⟩
  | nil => simp
  | declaration hv h _ ih => simpa [hv, or_imp, forall_and] using ⟨h.kind_ne_eof, ih⟩
  | statement _ _ ih ih' => simpa [or_imp, forall_and] using ⟨ih, ih'⟩

end Lox.Grammar
