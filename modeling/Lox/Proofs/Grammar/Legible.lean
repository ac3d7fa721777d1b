import Lox.Proofs.Grammar.Precedence
import Lox.Proofs.Number.Numeral
import Lox.Proofs.Program.Parenthesized

namespace Lox

open Grammar Form

/-- Whether the token is one of a source, and no number that is too large. -/
def Token.IsLegible (t : Token) : Prop :=
  Lexeme t.lexeme.toList t.kind t.literal ∧ t.literal ≠ .num (Number.ofMagnitude Number.infinity)

theorem Token.IsLegible.isWord {t : Token} (h : t.IsLegible) (hk : t.kind ≠ .leftParen) :
    IsWord t.reading := ⟨h.1, hk⟩

theorem isWord_keyword {k : Kind} {s : String} (hk : Kind.ofWord s = k)
    (hs : (s.toList.head?.any Piece.isLetter && s.toList.all Piece.isWordChar) = true) :
    IsWord (sign k s) := by
  subst hk
  simp only [Bool.and_eq_true, List.all_eq_true] at hs
  obtain ⟨hc, hcs⟩ := hs
  refine ⟨?_, (Kind.ofWord_ne s).2.2.1⟩
  cases ht : s.toList with
  | nil => simp [ht] at hc
  | cons c cs =>
    have hl : Lexeme (c :: cs) (Kind.ofWord (String.ofList (c :: cs))) .nil :=
      .word (by simpa [ht] using hc) fun d hd => hcs d (by simp [ht, hd])
    rw [← ht, String.ofList_toList] at hl
    exact ht ▸ hl

theorem isWord_of_literal? {t : Token} {v : Value} (ht : t.IsLegible) (h : literal? t = some v) :
    IsWord v.word := by
  obtain ⟨hl, hi⟩ := ht
  unfold literal? at h
  split at h
  case h_1 | h_2 | h_3 =>
    cases h
    exact isWord_keyword (by decide) (by decide)
  case h_4 hk =>
    obtain rfl := Option.some.inj h
    rw [hk] at hl
    obtain ⟨bits, hb, hv⟩ := hl.eq_num
    rw [hv] at hi ⊢
    have hne : bits ≠ Number.infinity := fun h => hi (by rw [h])
    exact ⟨Number.lexeme_text (Nat.lt_of_le_of_ne hb hne), by simp [Value.word]⟩
  case h_5 hk =>
    obtain rfl := Option.some.inj h
    rw [hk] at hl
    obtain ⟨body, hb, hv⟩ := hl.eq_str
    rw [hv]
    refine ⟨?_, by simp [Value.word]⟩
    simpa [Value.word] using Lexeme.string hb
  case h_6 => cases h

variable {w : Kind × String × Value}

theorem Form.Legible.call_one {f : Form} (hw : IsWord w) (hf : Legible f) : Legible (.call w [f]) :=
  .call hw (by simpa using hf)

theorem Form.Legible.call_two {f g : Form} (hw : IsWord w) (hf : Legible f) (hg : Legible g) :
    Legible (.call w [f, g]) := .call hw (by simpa using ⟨hf, hg⟩)

namespace Grammar

theorem Reads.legible {l : Level} {ts : List Token} {e : Expr} (h : Reads l ts e)
    (ht : ∀ t ∈ ts, t.IsLegible) :
    e.form.Legible := by
  induction h with
  | @literal t _ h => exact .word (isWord_of_literal? (ht t (List.mem_singleton_self t)) h)
  | @name t h => exact .word ((ht t (List.mem_singleton_self t)).isWord (by simp [h]))
  | grouping _ _ _ ih =>
    simp only [List.cons_append, List.forall_mem_cons, List.forall_mem_append] at ht
    exact .call_one (isWord_keyword (by decide) (by decide)) (ih ht.2.1)
  | unary ho _ ih =>
    obtain ⟨hop, hw⟩ := List.forall_mem_cons.1 ht
    exact .call_one (hop.isWord fun hk => by simp [hk, isUnary] at ho) (ih hw)
  | assign hk _ _ ih =>
    simp only [List.forall_mem_cons] at ht
    obtain ⟨htarget, -, hw⟩ := ht
    exact .call_two ⟨.mark (by decide), by decide⟩ (.word (htarget.isWord (by simp [hk]))) (ih hw)
  | @operation l op _ _ a b hl _ ho _ iha ihb =>
    simp only [List.forall_mem_append, List.forall_mem_cons] at ht
    obtain ⟨hv, hop, hw⟩ := ht
    have hb := ihb hw
    by_cases hc : l = .comma
    · subst hc
      exact hb
    · have hne : op.kind ≠ .leftParen := fun hk => by
        rw [hk, Level.isOperator, beq_iff_eq] at ho
        subst ho
        exact absurd hl (by decide)
      have hcall := Legible.call_two (hop.isWord hne) (iha hv) hb
      obtain ⟨-, h⟩ | ⟨-, h⟩ := Level.combine_of_isOperator hl hc ho
      all_goals
        rw [h]
        exact hcall
  | tighter _ ih => exact ih ht

theorem legible_expression {e : Expr} (h : e.form.Legible) : (Stmt.expression e).form.Legible :=
  .call_one ⟨.mark (by decide), by decide⟩ h

theorem legible_block {ss : List Stmt} (h : ∀ f ∈ Stmt.forms ss, f.Legible) :
    (Stmt.block ss).form.Legible :=
  .call (isWord_keyword (by decide) (by decide)) h

theorem legible_whileLoop {c : Expr} {s : Stmt} (hc : c.form.Legible) (hs : s.form.Legible) :
    (Stmt.whileLoop c s).form.Legible := .call_two (isWord_keyword (by decide) (by decide)) hc hs

theorem legible_forLoop {first : Option Stmt} {condition step : Option Expr} {s : Stmt}
    (hf : ∀ t, first = some t → t.form.Legible) (hc : ∀ e, condition = some e → e.form.Legible)
    (hp : ∀ e, step = some e → e.form.Legible) (hs : s.form.Legible) :
    (Stmt.forLoop first condition step s).form.Legible := by
  have htwo : ∀ {s t : Stmt}, s.form.Legible → t.form.Legible → (Stmt.block [s, t]).form.Legible :=
    fun hs ht =>
    legible_block (by simpa [Stmt.forms] using ⟨hs, ht⟩)
  have hcondition : (condition.getD (.literal (.bool true))).form.Legible := by
    cases condition with
    | none => exact .word (isWord_keyword (by decide) (by decide))
    | some e => exact hc e rfl
  have hloop : (Stmt.forLoop none condition step s).form.Legible := by
    cases step with
    | none => exact legible_whileLoop hcondition hs
    | some e => exact legible_whileLoop hcondition (htwo hs (legible_expression (hp e rfl)))
  cases first with
  | none => exact hloop
  | some t => exact htwo (hf t rfl) hloop

theorem ReadsDeclaration.legible {ts : List Token} {s : Stmt} (h : ReadsDeclaration ts s)
    (ht : ∀ t ∈ ts, t.IsLegible) : s.form.Legible := by
  have hvar : IsWord (sign .kwVar "var") := isWord_keyword (by decide) (by decide)
  cases h with
  | plain hn _ =>
    obtain ⟨hname, -⟩ := List.forall_mem_cons.1 ht
    exact .call_two hvar (.word (hname.isWord (by simp [hn])))
      (.word (isWord_keyword (by decide) (by decide)))
  | valued hn _ h _ =>
    simp only [List.cons_append, List.forall_mem_cons, List.forall_mem_append] at ht
    obtain ⟨hname, -, hw, -⟩ := ht
    exact .call_two hvar (.word (hname.isWord (by simp [hn]))) (h.legible hw)

theorem ReadsFirst.legible {ts : List Token} {s : Stmt} (h : ReadsFirst ts (some s))
    (ht : ∀ t ∈ ts, t.IsLegible) :
    s.form.Legible := by
  cases h with
  | declaration _ h => exact h.legible (List.forall_mem_cons.1 ht).2
  | expression h _ => exact legible_expression (h.legible (List.forall_mem_append.1 ht).1)

theorem ReadsClause.legible {ts : List Token} {e : Expr} (h : ReadsClause ts (Option.some e))
    (ht : ∀ t ∈ ts, t.IsLegible) : e.form.Legible := by
  cases h with
  | some h => exact h.legible ht

def Phrase.IsLegible : Phrase → Prop
  | .statement _ s => s.form.Legible
  | .items ss => ∀ f ∈ Stmt.forms ss, f.Legible

theorem ReadsPhrase.legible {ts : List Token} {p : Phrase} (h : ReadsPhrase ts p)
    (ht : ∀ t ∈ ts, t.IsLegible) :
    p.IsLegible := by
  induction h with
  | expression h _ => exact legible_expression (h.legible (List.forall_mem_append.1 ht).1)
  | print _ h _ =>
    simp only [List.cons_append, List.forall_mem_cons, List.forall_mem_append] at ht
    exact .call_one (isWord_keyword (by decide) (by decide)) (h.legible ht.2.1)
  | block _ _ _ ih =>
    simp only [List.cons_append, List.forall_mem_cons, List.forall_mem_append] at ht
    exact legible_block (ih ht.2.1)
  | ifThen _ _ he _ _ ih =>
    simp only [List.cons_append, List.forall_mem_cons, List.forall_mem_append] at ht
    obtain ⟨-, -, hv, -, hw⟩ := ht
    exact .call_two (isWord_keyword (by decide) (by decide)) (he.legible hv) (ih hw)
  | ifElse _ _ he _ _ _ _ ih ih' =>
    simp only [List.cons_append, List.forall_mem_cons, List.forall_mem_append] at ht
    obtain ⟨-, -, hv, -, hw, -, hw'⟩ := ht
    exact .call (isWord_keyword (by decide) (by decide)) (by simpa using ⟨he.legible hv, ih hw, ih' hw'⟩)
  | whileLoop _ _ he _ _ ih =>
    simp only [List.cons_append, List.forall_mem_cons, List.forall_mem_append] at ht
    obtain ⟨-, -, hv, -, hw⟩ := ht
    exact legible_whileLoop (he.legible hv) (ih hw)
  | forLoop _ _ hf he _ hp _ _ ih =>
    simp only [List.cons_append, List.append_assoc, List.forall_mem_cons, List.forall_mem_append] at ht
    obtain ⟨-, -, hu, hv, -, hv', -, hw⟩ := ht
    refine legible_forLoop ?_ ?_ ?_ (ih hw)
    · rintro t rfl
      exact hf.legible hu
    · rintro e rfl
      exact he.legible hv
    · rintro e rfl
      exact hp.legible hv'
  | nil => simp [Phrase.IsLegible, Stmt.forms]
  | declaration _ h _ ih =>
    simp only [List.cons_append, List.forall_mem_cons, List.forall_mem_append] at ht
    exact List.forall_mem_cons.2 ⟨h.legible ht.2.1, ih ht.2.2⟩
  | statement _ _ ih ih' =>
    obtain ⟨hw, hw'⟩ := List.forall_mem_append.1 ht
    exact List.forall_mem_cons.2 ⟨ih hw, ih' hw'⟩

end Grammar

end Lox
