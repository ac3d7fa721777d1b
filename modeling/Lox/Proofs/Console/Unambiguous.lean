import Lox.Proofs.Console.Pieces
import Lox.Proofs.Grammar.Legible

namespace Lox

open Grammar

namespace Stmt

theorem toList_lines (s : Stmt) (ss : List Stmt) :
    '\n' :: ("\n".intercalate ((s :: ss).map parenthesized)).toList =
      Form.behind '\n' (forms (s :: ss)) := by
  induction ss generalizing s with
  | nil => simp [forms, Form.behind, toList_parenthesized]
  | cons t ss ih =>
    have ht := ih t
    rw [List.map_cons] at ht
    rw [List.map_cons, List.map_cons, String.intercalate_cons_cons, forms, Form.behind, ← ht]
    simp [toList_parenthesized]

theorem lines_ne (s : Stmt) (ss : List Stmt) : "\n".intercalate ((s :: ss).map parenthesized) ≠ "" := by
  intro h
  have hl := toList_lines s ss
  rw [h] at hl
  cases s <;> simp [forms, form, Form.behind, Form.text] at hl

theorem forms_of_lines {ss ts : List Stmt} (hs : ∀ f ∈ forms ss, f.Legible)
    (ht : ∀ f ∈ forms ts, f.Legible)
    (h : "\n".intercalate (ss.map parenthesized) = "\n".intercalate (ts.map parenthesized)) :
    forms ss = forms ts := by
  cases ss with
  | nil =>
    cases ts with
    | nil => rfl
    | cons t ts => exact absurd h.symm (lines_ne t ts)
  | cons s ss =>
    cases ts with
    | nil => exact absurd h (lines_ne s ss)
    | cons t ts =>
      refine Form.behind_newline_inj hs ht ?_
      rw [← toList_lines, ← toList_lines, h]

end Stmt

/-- Whether no number of the source is too large. -/
def HasFiniteNumbers (source : String) : Prop :=
  ∀ t ∈ (scan source).tokens, t.literal ≠ .num (Number.ofMagnitude Number.infinity)

instance (source : String) : Decidable (HasFiniteNumbers source) := List.decidableBAll _ _

theorem legible_of_compile {source : String} (h : (compile source).problems = [])
    (hf : HasFiniteNumbers source) :
    Stmt.areWellShaped (compile source).statements = true ∧
      ∀ f ∈ Stmt.forms (compile source).statements, f.Legible := by
  obtain ⟨-, ts, stop, hts, -, hr⟩ := reads_of_compile h
  refine ⟨hr.isShaped, hr.legible fun t ht => ?_⟩
  have hm : t ∈ (scan source).tokens := by simp [hts, ht]
  exact ⟨scan_lexemes source t hm (hr.kind_ne_eof t ht), hf t hm⟩

namespace Session

variable {s t : String}

theorem parenthesized_of_fit (a : Session) (h : (compile s).problems = []) :
    (a.parenthesized s).2 = some ("\n".intercalate ((compile s).statements.map Stmt.parenthesized)) := by
  simp [parenthesized, write, accept_of_fit h]

/-- Sources without problems and with the same parenthesized text have the same statements, but for
their lines. -/
theorem relocate_of_parenthesized (hs : (compile s).problems = []) (ht : (compile t).problems = [])
    (hsf : HasFiniteNumbers s) (htf : HasFiniteNumbers t) {a b : Session}
    (h : (a.parenthesized s).2 = (b.parenthesized t).2) :
    (compile s).statements.map (Stmt.relocate nowhere) =
      (compile t).statements.map (Stmt.relocate nowhere) := by
  obtain ⟨hsw, hsl⟩ := legible_of_compile hs hsf
  obtain ⟨htw, htl⟩ := legible_of_compile ht htf
  rw [a.parenthesized_of_fit hs, b.parenthesized_of_fit ht, Option.some.injEq] at h
  have hforms := Stmt.forms_of_lines hsl htl h
  rw [← Stmt.relocateAll_eq_map, ← Stmt.relocateAll_eq_map]
  exact Stmt.relocateAll_of_forms hsw htw hforms

/-- A number of two spellings, other blanks and a comment, and a string with a line end and
parentheses in it. -/
theorem relocate_of_parenthesized_respelled :
    let s := "var x = 1.50;\nprint -x - 2 + \"(a)\nb\"; // sum"
    let t := "var x=1.5;print-x-2+\"(a)\nb\";"
    let a := atConsole { fatal := false, color := false }
    (a.parenthesized s).2 = some "(var x 1.5)\n(print (+ (- (- x) 2) \"(a)\nb\"))" ∧
      (scan s).tokens.map Token.line ≠ (scan t).tokens.map Token.line ∧
      (compile s).statements.map (Stmt.relocate nowhere) =
        (compile t).statements.map (Stmt.relocate nowhere) := by
  intro s t a
  have hs : (compile s).problems = [] := List.isEmpty_iff.1 (by decide +kernel)
  have ht : (compile t).problems = [] := List.isEmpty_iff.1 (by decide +kernel)
  have htext : (a.parenthesized s).2 = (a.parenthesized t).2 := by decide +kernel
  exact ⟨by decide +kernel, by decide +kernel,
    relocate_of_parenthesized hs ht (by decide +kernel) (by decide +kernel) htext⟩

end Session

end Lox
