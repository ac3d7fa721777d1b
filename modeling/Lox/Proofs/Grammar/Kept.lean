import Lox.Proofs.Grammar.Soundness

namespace Lox

namespace Expr

def kept : Expr → List Token
  | literal _ => []
  | name t => [t]
  | assign t e => t :: e.kept
  | unary t e => t :: e.kept
  | binary a t b => t :: (a.kept ++ b.kept)
  | logical a t b => t :: (a.kept ++ b.kept)
  | grouping e => e.kept

end Expr

namespace Stmt

mutual

def expressions : Stmt → List Expr
  | expression e => [e]
  | print e => [e]
  | declare _ e => [e]
  | block ss => expressionsAll ss
  | ifThen c s => c :: s.expressions
  | ifElse c s t => c :: (s.expressions ++ t.expressions)
  | whileLoop c s => c :: s.expressions

def expressionsAll : List Stmt → List Expr
  | [] => []
  | s :: ss => s.expressions ++ expressionsAll ss

end

mutual

def kept : Stmt → List Token
  | expression e => e.kept
  | print e => e.kept
  | declare t e => t :: e.kept
  | block ss => keptAll ss
  | ifThen c s => c.kept ++ s.kept
  | ifElse c s t => c.kept ++ (s.kept ++ t.kept)
  | whileLoop c s => c.kept ++ s.kept

def keptAll : List Stmt → List Token
  | [] => []
  | s :: ss => s.kept ++ keptAll ss

end

end Stmt

namespace Grammar

def Covers (w : List Token) (es : List Expr) : Prop := ∀ e ∈ es, e.kept ⊆ w

section Covers

variable {v w : List Token} {e : Expr} {es fs : List Expr}

theorem covers_nil (w : List Token) : Covers w [] := fun _ he => absurd he List.not_mem_nil

theorem covers_cons : Covers w (e :: es) ↔ e.kept ⊆ w ∧ Covers w es := List.forall_mem_cons

theorem covers_append : Covers w (es ++ fs) ↔ Covers w es ∧ Covers w fs := List.forall_mem_append

theorem Covers.mono (h : Covers v es) (hv : v ⊆ w) : Covers w es :=
  fun e he => List.Subset.trans (h e he) hv

end Covers

mutual

theorem covers_kept (s : Stmt) : Covers s.kept s.expressions := by
  match s with
  | .expression e | .print e => exact covers_cons.2 ⟨List.Subset.refl _, covers_nil _⟩
  | .declare t e => exact covers_cons.2 ⟨List.subset_cons_self _ _, covers_nil _⟩
  | .block ss => exact covers_keptAll ss
  | .ifThen c s | .whileLoop c s =>
    exact covers_cons.2 ⟨List.subset_append_left _ _,
      (covers_kept s).mono (List.subset_append_right _ _)⟩
  | .ifElse c s t =>
    have hst : Covers (s.kept ++ t.kept) (s.expressions ++ t.expressions) := covers_append.2
      ⟨(covers_kept s).mono (List.subset_append_left _ _),
        (covers_kept t).mono (List.subset_append_right _ _)⟩
    exact covers_cons.2 ⟨List.subset_append_left _ _, hst.mono (List.subset_append_right _ _)⟩

theorem covers_keptAll (ss : List Stmt) : Covers (Stmt.keptAll ss) (Stmt.expressionsAll ss) := by
  match ss with
  | [] => exact covers_nil _
  | s :: ss =>
    exact covers_append.2 ⟨(covers_kept s).mono (List.subset_append_left _ _),
      (covers_keptAll ss).mono (List.subset_append_right _ _)⟩

end

theorem Reads.kept_subset {l : Level} {w : List Token} {e : Expr} (h : Reads l w e) : e.kept ⊆ w := by
  induction h with
  | literal => exact List.nil_subset _
  | name => exact List.Subset.refl _
  | grouping _ _ _ ih => exact fun t ht => by simp [ih ht]
  | unary _ _ ih => exact List.cons_subset_cons _ ih
  | assign _ _ _ ih => exact List.cons_subset_cons _ fun t ht => List.mem_cons_of_mem _ (ih ht)
  | @operation l op v w a b _ _ _ _ iha ihb =>
    have hab : op :: (a.kept ++ b.kept) ⊆ v ++ op :: w := by
      intro t ht
      obtain rfl | ht := List.mem_cons.1 ht
      · simp
      · obtain ht | ht := List.mem_append.1 ht
        · exact List.mem_append_left _ (iha ht)
        · simp [ihb ht]
    cases l with
    | comma => exact fun t ht => by simp [ihb ht]
    | _ => exact hab
  | tighter _ ih => exact ih

def Phrase.expressions : Phrase → List Expr
  | .statement _ s => s.expressions
  | .items ss => Stmt.expressionsAll ss

def Phrase.kept : Phrase → List Token
  | .statement _ s => s.kept
  | .items ss => Stmt.keptAll ss

theorem covers_phrase (p : Phrase) : Covers p.kept p.expressions := by
  cases p with
  | statement isOpen s => exact covers_kept s
  | items ss => exact covers_keptAll ss

theorem ReadsDeclaration.kept_subset {w : List Token} {s : Stmt} (h : ReadsDeclaration w s) :
    s.kept ⊆ w := by
  cases h with
  | plain => exact List.cons_subset_cons _ (List.nil_subset _)
  | valued _ _ h _ => exact List.cons_subset_cons _ fun t ht => by simp [h.kept_subset ht]

theorem ReadsFirst.kept_subset {w : List Token} {first : Option Stmt} (h : ReadsFirst w first) :
    Stmt.keptAll first.toList ⊆ w := by
  cases h with
  | none => exact List.nil_subset _
  | declaration _ h =>
    rw [Option.toList_some, Stmt.keptAll, Stmt.keptAll, List.append_nil]
    exact List.subset_cons_of_subset _ h.kept_subset
  | expression h _ =>
    rw [Option.toList_some, Stmt.keptAll, Stmt.keptAll, List.append_nil]
    exact List.subset_append_of_subset_left _ h.kept_subset

theorem ReadsClause.kept_subset {w : List Token} {clause : Option Expr} (h : ReadsClause w clause) :
    clause.toList.flatMap Expr.kept ⊆ w := by
  cases h with
  | none => exact List.nil_subset _
  | some h => simpa using h.kept_subset

theorem kept_forLoop_subset {w : List Token} {first : Option Stmt} {condition step : Option Expr}
    {s : Stmt} (hf : Stmt.keptAll first.toList ⊆ w) (hc : condition.toList.flatMap Expr.kept ⊆ w)
    (hp : step.toList.flatMap Expr.kept ⊆ w) (hs : s.kept ⊆ w) :
    (Stmt.forLoop first condition step s).kept ⊆ w := by
  cases first <;> cases condition <;> cases step <;>
    simp_all [Stmt.forLoop, Stmt.kept, Stmt.keptAll, Expr.kept]

theorem ReadsPhrase.kept_subset {w : List Token} {p : Phrase} (h : ReadsPhrase w p) : p.kept ⊆ w := by
  induction h with
  | expression h _ => exact fun t ht => by simp [h.kept_subset ht]
  | print _ h _ => exact fun t ht => by simp [h.kept_subset ht]
  | block _ _ _ ih => exact fun t ht => by simp [ih ht]
  | ifThen _ _ he _ _ ih | whileLoop _ _ he _ _ ih =>
    exact List.append_subset.2 ⟨fun t ht => by simp [he.kept_subset ht], fun t ht => by simp [ih ht]⟩
  | ifElse _ _ he _ _ _ _ ih ih' =>
    refine List.append_subset.2 ⟨fun t ht => by simp [he.kept_subset ht], List.append_subset.2 ⟨?_, ?_⟩⟩
    · exact fun t ht => by simp [ih ht]
    · exact fun t ht => by simp [ih' ht]
  | forLoop _ _ hf he _ hp _ _ ih =>
    apply kept_forLoop_subset
    · exact fun t ht => by simp [hf.kept_subset ht]
    · exact fun t ht => by simp [he.kept_subset ht]
    · exact fun t ht => by simp [hp.kept_subset ht]
    · exact fun t ht => by simp [ih ht]
  | nil => exact List.nil_subset _
  | declaration _ h _ ih =>
    exact List.append_subset.2 ⟨fun t ht => by simp [h.kept_subset ht], fun t ht => by simp [ih ht]⟩
  | statement _ _ ih ih' =>
    exact List.append_subset.2 ⟨fun t ht => by simp [ih ht], fun t ht => by simp [ih' ht]⟩

theorem ReadsPhrase.covers {w : List Token} {p : Phrase} (h : ReadsPhrase w p) :
    Covers w p.expressions :=
  (covers_phrase p).mono h.kept_subset

theorem kept_of_mem_parse {tokens : List Token} {s : Stmt} (hs : s ∈ (parse tokens).statements) :
    s.kept ⊆ tokens := by
  obtain ⟨w, hw, hr⟩ := exists_reads_of_mem_parse hs
  have hsub : Stmt.keptAll [s] ⊆ w := hr.kept_subset
  rw [Stmt.keptAll, Stmt.keptAll, List.append_nil] at hsub
  exact fun t ht => (List.takeWhile_prefix _).subset (hw.subset (hsub ht))

/-- No token is made up by the parser. -/
theorem keptAll_parse_subset (tokens : List Token) :
    Stmt.keptAll (parse tokens).statements ⊆ tokens := by
  have h : ∀ s ∈ (parse tokens).statements, s.kept ⊆ tokens := fun s => kept_of_mem_parse
  generalize (parse tokens).statements = ss at h
  induction ss with
  | nil => exact List.nil_subset _
  | cons s ss ih =>
    obtain ⟨hs, hss⟩ := List.forall_mem_cons.1 h
    exact List.append_subset.2 ⟨hs, ih hss⟩

end Grammar

end Lox
