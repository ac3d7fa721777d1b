import Lox.Proofs.Console.Pieces
import Lox.Proofs.Program.Arity

namespace Lox

open Grammar

namespace Entry

variable {x : Entry}

theorem space_notMem_word (h : x.IsSpelled) : ' ' ∉ x.word.toList := by
  have hspace : ' ' ∈ Piece.blanks := by decide
  cases h with
  | number hb =>
    obtain ⟨k, v, hl, hk⟩ := Number.exists_lexeme_text hb
    refine hl.blank_notMem_of_kind ?_ hspace
    obtain ⟨rfl, -⟩ | ⟨rfl, -⟩ := hk <;> decide
  | one h hk | two h hk =>
    refine h.blank_notMem_of_kind ?_ hspace
    intro hs
    rw [hs] at hk
    exact absurd hk (by decide)

end Entry

def Text.words (s : String) : List String := (s.toList.splitOn ' ').map String.ofList

theorem Text.words_intercalate {ws : List String} (hw : ∀ w ∈ ws, ' ' ∉ w.toList) (hws : ws ≠ []) :
    words (" ".intercalate ws) = ws := by
  have hspace : " ".toList = [' '] := rfl
  have hsplit : ([' '].intercalate (ws.map String.toList)).splitOn ' ' = ws.map String.toList :=
    List.splitOn_intercalate ' ' (List.forall_mem_map.2 hw) (by simpa using hws)
  rw [words, String.toList_intercalate, hspace, hsplit]
  simp

theorem isSpelled_of_compile {source : String} (h : (compile source).problems = []) {e : Expr}
    (he : e ∈ Stmt.expressionsAll (compile source).statements) : ∀ x ∈ e.entries, x.IsSpelled := by
  obtain ⟨-, ts, stop, hts, -, hr⟩ := reads_of_compile h
  refine (hr.isRead e he).isSpelled fun t ht => ?_
  exact scan_lexemes source t (by simp [hts, ht]) (hr.kind_ne_eof t ht)

namespace Expr

theorem words_reversed {e : Expr} (he : e.IsArithmetic) (h : ∀ x ∈ e.entries, x.IsSpelled) :
    Text.words e.reversed = e.entries.map Entry.word := by
  rw [(reversed_eq he).1]
  refine Text.words_intercalate ?_ ?_
  · exact List.forall_mem_map.2 fun x hx => Entry.space_notMem_word (h x hx)
  · simpa using entries_ne_nil he

theorem alike_of_reversed {a b : Expr} (ha : ∀ x ∈ a.entries, x.IsSpelled)
    (hb : ∀ x ∈ b.entries, x.IsSpelled) (h : a.reversed = b.reversed) (hne : a.reversed ≠ "") :
    List.Forall₂ Entry.Alike a.entries b.entries := by
  have haa := isArithmetic_of_reversed hne
  have hba := isArithmetic_of_reversed (h ▸ hne)
  refine Entry.alike_of_words ha hb ?_
  rw [← words_reversed haa ha, ← words_reversed hba hb, h]

theorem eval_relocate_of_ungrouped {a b : Expr} {place : Int → Int}
    (h : a.ungrouped.relocate place = b.ungrouped.relocate place) :
    a.eval.relocate place = b.eval.relocate place := by
  rw [← a.eval_ungrouped, ← b.eval_ungrouped, ← eval_relocate, ← eval_relocate, h]

end Expr

/-- Two expressions of sources without problems that have the same reversed text, which is not
empty, differ in groupings and lines only, exactly if the same minus signs in them have one operand
only. This is so if no minus sign of one of the two has. Then they are evaluated with the same
result and with the same effects. -/
theorem ungrouped_iff_of_reversed {s t : String} (hs : (compile s).problems = [])
    (ht : (compile t).problems = []) {a b : Expr} (ha : a ∈ Stmt.expressionsAll (compile s).statements)
    (hb : b ∈ Stmt.expressionsAll (compile t).statements) (h : a.reversed = b.reversed)
    (hne : a.reversed ≠ "") :
    (a.ungrouped.relocate nowhere = b.ungrouped.relocate nowhere ↔ a.signs = b.signs) ∧
      (true ∉ a.signs ∨ true ∉ b.signs → a.signs = b.signs) ∧
      (a.signs = b.signs → ∀ scopes,
        (a.eval scopes).1.mapError (Halt.relocate nowhere) =
          (b.eval scopes).1.mapError (Halt.relocate nowhere) ∧
          (a.eval scopes).2 = (b.eval scopes).2) := by
  have haa := Expr.isArithmetic_of_reversed hne
  have hba := Expr.isArithmetic_of_reversed (h ▸ hne)
  have hab := Expr.alike_of_reversed (isSpelled_of_compile hs ha) (isSpelled_of_compile ht hb) h hne
  have hiff := Expr.ungrouped_iff_signs haa hba hab
  refine ⟨hiff, ?_, ?_⟩
  · rintro (hsign | hsign)
    · exact Expr.signs_eq_of_alike haa hba hab hsign
    · have hbn : b.reversed ≠ "" := h ▸ hne
      have hba' :=
        Expr.alike_of_reversed (isSpelled_of_compile ht hb) (isSpelled_of_compile hs ha) h.symm hbn
      exact (Expr.signs_eq_of_alike hba haa hba' hsign).symm
  · intro hsigns scopes
    have heval := congrFun (Expr.eval_relocate_of_ungrouped (hiff.2 hsigns)) scopes
    exact Prod.mk.inj heval

deriving instance DecidableEq for Token, Expr

/-- A minus sign with one operand and one with two, with parentheses that change nothing and on two
lines: `-1 - 2 * 3;` -/
theorem ungrouped_iff_of_reversed_two_lines :
    let s := "-1 - 2 * (3);"
    let t := "(-1)\n- (2 * 3);"
    let minus : Token := ⟨.minus, "-", .nil, 1⟩
    let negative : Expr := .unary minus (.literal (.num 1))
    let star : Token := ⟨.star, "*", .nil, 1⟩
    let a : Expr :=
      .binary negative minus (.binary (.literal (.num 2)) star (.grouping (.literal (.num 3))))
    let b : Expr := .binary (.grouping negative) { minus with line := 2 }
      (.grouping (.binary (.literal (.num 2)) { star with line := 2 } (.literal (.num 3))))
    a ∈ Stmt.expressionsAll (compile s).statements ∧ b ∈ Stmt.expressionsAll (compile t).statements ∧
      a.reversed = "1 - 2 3 * -" ∧ b.reversed = "1 - 2 3 * -" ∧
      a.signs = [true, false] ∧ b.signs = [true, false] ∧
      a.ungrouped.relocate nowhere = b.ungrouped.relocate nowhere := by
  intro s t minus negative star a b
  have hs : (compile s).problems = [] := List.isEmpty_iff.1 (by decide +kernel)
  have ht : (compile t).problems = [] := List.isEmpty_iff.1 (by decide +kernel)
  have ha : a ∈ Stmt.expressionsAll (compile s).statements := by decide +kernel
  have hb : b ∈ Stmt.expressionsAll (compile t).statements := by decide +kernel
  have hat : a.reversed = "1 - 2 3 * -" := by decide +kernel
  have hbt : b.reversed = "1 - 2 3 * -" := by decide +kernel
  have hne : a.reversed ≠ "" := by rw [hat]; decide
  have hiff := (ungrouped_iff_of_reversed hs ht ha hb (hat.trans hbt.symm) hne).1
  exact ⟨ha, hb, hat, hbt, by decide +kernel, by decide +kernel, hiff.2 (by decide +kernel)⟩

/-- Each of the two minus signs may be the one with one operand, and the text does not tell which.
-/
theorem reversed_of_two_minus_signs :
    let minus : Token := ⟨.minus, "-", .nil, 1⟩
    let one : Expr := .literal (.num 1)
    let two : Expr := .literal (.num 2)
    let a : Expr := .binary one minus (.unary minus two)
    let b : Expr := .unary minus (.grouping (.binary one minus two))
    (compile "1 - -2;").problems = [] ∧ (compile "-(1 - 2);").problems = [] ∧
      (compile "1 - -2;").statements.map Stmt.expressions = [[a]] ∧
      (compile "-(1 - 2);").statements.map Stmt.expressions = [[b]] ∧
      a.reversed = "1 2 - -" ∧ b.reversed = "1 2 - -" ∧
      a.ungrouped.relocate nowhere ≠ b.ungrouped.relocate nowhere ∧
      ∀ scopes, (a.eval scopes).1 = .ok (.num 3) ∧ (b.eval scopes).1 = .ok (.num 1) := by
  intro minus one two a b
  refine ⟨List.isEmpty_iff.1 (by decide +kernel),
    List.isEmpty_iff.1 (by decide +kernel), by decide +kernel,
    by decide +kernel, by decide +kernel, by decide +kernel, by decide +kernel, fun scopes => ⟨?_, ?_⟩⟩
  · have hvalue : (1 : Float) - (-2 : Float) = 3 := by decide +kernel
    rw [← hvalue]
    rfl
  · have hvalue : -((1 : Float) - 2) = 1 := by decide +kernel
    rw [← hvalue]
    rfl

end Lox
