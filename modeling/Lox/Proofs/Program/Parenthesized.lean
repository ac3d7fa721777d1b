import Lox.Proofs.Grammar.Shape
import Lox.Proofs.Program.Form
import Lox.Proofs.Program.Layout

namespace Lox

open Grammar

def Value.word : Value → Kind × String × Value
  | nil => (.kwNil, "nil", nil)
  | bool false => (.kwFalse, "false", nil)
  | bool true => (.kwTrue, "true", nil)
  | num x => (.number, Number.text x, num x)
  | str s => (.string, "\"" ++ s ++ "\"", str s)

theorem Value.word_inj {v w : Value} (h : v.word = w.word) : v = w := by
  rcases v with _ | ⟨_ | _⟩ | x | s <;> rcases w with _ | ⟨_ | _⟩ | y | r <;> simp_all [word]

theorem Value.word_kind_ne (v : Value) : v.word.1 ≠ .identifier := by
  rcases v with _ | ⟨_ | _⟩ | x | s <;> simp [word]

theorem Token.relocate_nowhere {t u : Token} (h : t.reading = u.reading) :
    t.relocate nowhere = u.relocate nowhere := by
  simp only [reading, Prod.mk.injEq] at h
  obtain ⟨hk, hl, hv⟩ := h
  simp only [relocate, hk, hl, hv, nowhere]

def sign (k : Kind) (text : String) : Kind × String × Value := (k, text, .nil)

namespace Expr

def form : Expr → Form
  | literal v => .word v.word
  | name t => .word t.reading
  | assign t e => .call (sign .equal "=") [.word t.reading, e.form]
  | unary t e => .call t.reading [e.form]
  | binary a t b => .call t.reading [a.form, b.form]
  | logical a t b => .call t.reading [a.form, b.form]
  | grouping e => .call (sign .identifier "group") [e.form]

theorem toList_parenthesized (e : Expr) : e.parenthesized.toList = e.form.text := by
  induction e with
  | literal v =>
    cases v with
    | bool b => cases b <;> rfl
    | nil | num | str => rfl
  | name t => rfl
  | assign t e ih | unary t e ih | grouping e ih =>
    simp [parenthesized, form, Form.text, Form.behind, sign, Token.reading, ih]
  | binary a t b iha ihb | logical a t b iha ihb =>
    simp [parenthesized, form, Form.text, Form.behind, Token.reading, iha, ihb]

inductive Role
  | literal | name | assign | unary | binary | logical | grouping

def role : Expr → Role
  | literal _ => .literal
  | name _ => .name
  | assign .. => .assign
  | unary .. => .unary
  | binary .. => .binary
  | logical .. => .logical
  | grouping _ => .grouping

/-- Told from the first word and, for the sign that is an operator of one and of two operands, from
their number. -/
def roleOf : Form → Role
  | .word w => if w.1 = .identifier then .name else .literal
  | .call w fs =>
    if w.1 = .equal then .assign
    else if w.1 = .identifier then .grouping
    else if isLogical w.1 then .logical
    else if fs.length = 1 then .unary
    else .binary

theorem roleOf_form {e : Expr} (he : e.isWellShaped = true) : roleOf e.form = e.role := by
  have hunary : ∀ k, isUnary k = true → k ≠ .equal ∧ k ≠ .identifier ∧ isLogical k = false := by
    intro k
    cases k <;> decide
  have hbinary : ∀ k, isBinary k = true → k ≠ .equal ∧ k ≠ .identifier ∧ isLogical k = false := by
    intro k
    cases k <;> decide
  have hlogical : ∀ k, isLogical k = true → k ≠ .equal ∧ k ≠ .identifier := by
    intro k
    cases k <;> decide
  cases e with
  | literal v => exact if_neg v.word_kind_ne
  | name t =>
    simp only [isWellShaped, beq_iff_eq] at he
    exact if_pos he
  | assign | grouping => rfl
  | unary t e =>
    simp only [isWellShaped, Bool.and_eq_true] at he
    obtain ⟨hq, hi, hl⟩ := hunary _ he.1.1
    simp [form, roleOf, role, Token.reading, hq, hi, hl]
  | binary a t b =>
    simp only [isWellShaped, Bool.and_eq_true] at he
    obtain ⟨hq, hi, hl⟩ := hbinary _ he.1.1.1.1
    simp [form, roleOf, role, Token.reading, hq, hi, hl]
  | logical a t b =>
    simp only [isWellShaped, Bool.and_eq_true] at he
    obtain ⟨hq, hi⟩ := hlogical _ he.1.1.1.1
    simp [form, roleOf, role, Token.reading, hq, hi, he.1.1.1.1]

theorem role_of_form {e f : Expr} (he : e.isWellShaped = true) (hf : f.isWellShaped = true)
    (h : e.form = f.form) : e.role = f.role := by
  rw [← roleOf_form he, h, roleOf_form hf]

theorem relocate_of_form {e f : Expr} (he : e.isWellShaped = true) (hf : f.isWellShaped = true)
    (h : e.form = f.form) : e.relocate nowhere = f.relocate nowhere := by
  induction e generalizing f with
  | literal v =>
    have hrole := role_of_form he hf h
    cases f <;> cases hrole
    simp only [form, Form.word.injEq] at h
    rw [Value.word_inj h]
  | name t =>
    have hrole := role_of_form he hf h
    cases f <;> cases hrole
    simp only [form, Form.word.injEq] at h
    simp only [relocate, Token.relocate_nowhere h]
  | assign t e ih =>
    have hrole := role_of_form he hf h
    cases f <;> cases hrole
    simp only [form, Form.call.injEq, List.cons.injEq, Form.word.injEq, and_true, true_and] at h
    simp only [isWellShaped, Bool.and_eq_true] at he hf
    simp only [relocate, Token.relocate_nowhere h.1, ih he.2 hf.2 h.2]
  | unary t e ih =>
    have hrole := role_of_form he hf h
    cases f <;> cases hrole
    simp only [form, Form.call.injEq, List.cons.injEq, and_true] at h
    simp only [isWellShaped, Bool.and_eq_true] at he hf
    simp only [relocate, Token.relocate_nowhere h.1, ih he.2 hf.2 h.2]
  | binary a t b iha ihb | logical a t b iha ihb =>
    have hrole := role_of_form he hf h
    cases f <;> cases hrole
    simp only [form, Form.call.injEq, List.cons.injEq, and_true] at h
    simp only [isWellShaped, Bool.and_eq_true] at he hf
    simp only [relocate, Token.relocate_nowhere h.1, iha he.1.2 hf.1.2 h.2.1, ihb he.2 hf.2 h.2.2]
  | grouping e ih =>
    have hrole := role_of_form he hf h
    cases f <;> cases hrole
    simp only [form, Form.call.injEq, List.cons.injEq, and_true, true_and] at h
    simp only [isWellShaped] at he hf
    simp only [relocate, ih he hf h]

end Expr

namespace Stmt

mutual

def form : Stmt → Form
  | expression e => .call (sign .semicolon ";") [e.form]
  | print e => .call (sign .kwPrint "print") [e.form]
  | declare t e => .call (sign .kwVar "var") [.word t.reading, e.form]
  | block ss => .call (sign .identifier "block") (forms ss)
  | ifThen c s => .call (sign .kwIf "if") [c.form, s.form]
  | ifElse c s t => .call (sign .kwIf "if") [c.form, s.form, t.form]
  | whileLoop c s => .call (sign .kwWhile "while") [c.form, s.form]

def forms : List Stmt → List Form
  | [] => []
  | s :: ss => s.form :: forms ss

end

mutual

theorem toList_parenthesized (s : Stmt) : s.parenthesized.toList = s.form.text := by
  match s with
  | expression e | print e | declare t e =>
    simp [parenthesized, form, Form.text, Form.behind, sign, Token.reading, e.toList_parenthesized]
  | block ss => simp [parenthesized, form, Form.text, sign, toList_spaced ss]
  | ifThen c s | whileLoop c s =>
    simp [parenthesized, form, Form.text, Form.behind, sign, c.toList_parenthesized,
      toList_parenthesized s]
  | ifElse c s t =>
    simp [parenthesized, form, Form.text, Form.behind, sign, c.toList_parenthesized,
      toList_parenthesized s, toList_parenthesized t]

theorem toList_spaced (ss : List Stmt) : (spaced ss).toList = Form.behind ' ' (forms ss) := by
  match ss with
  | [] => rfl
  | s :: ss => simp [spaced, forms, Form.behind, toList_parenthesized s, toList_spaced ss]

end

mutual

theorem relocate_of_form {s t : Stmt} (hs : s.isWellShaped = true) (ht : t.isWellShaped = true)
    (h : s.form = t.form) : s.relocate nowhere = t.relocate nowhere := by
  match s with
  | expression e | print e =>
    cases t <;> simp [form, sign] at h
    simp only [isWellShaped] at hs ht
    simp only [relocate, Expr.relocate_of_form hs ht h]
  | declare x e =>
    cases t <;> simp [form, sign] at h
    simp only [isWellShaped, Bool.and_eq_true] at hs ht
    simp only [relocate, Token.relocate_nowhere h.1, Expr.relocate_of_form hs.2 ht.2 h.2]
  | block ss =>
    cases t <;> simp [form, sign] at h
    simp only [isWellShaped] at hs ht
    simp only [relocate, relocateAll_of_forms hs ht h]
  | ifThen c s | whileLoop c s =>
    cases t <;> simp [form, sign] at h
    simp only [isWellShaped, Bool.and_eq_true] at hs ht
    simp only [relocate, Expr.relocate_of_form hs.1.1 ht.1.1 h.1, relocate_of_form hs.2 ht.2 h.2]
  | ifElse c s s' =>
    cases t <;> simp [form, sign] at h
    simp only [isWellShaped, Bool.and_eq_true] at hs ht
    simp only [relocate, Expr.relocate_of_form hs.1.1.1.1.1 ht.1.1.1.1.1 h.1,
      relocate_of_form hs.1.1.2 ht.1.1.2 h.2.1, relocate_of_form hs.2 ht.2 h.2.2]

theorem relocateAll_of_forms {ss ts : List Stmt} (hs : areWellShaped ss = true)
    (ht : areWellShaped ts = true) (h : forms ss = forms ts) :
    relocateAll nowhere ss = relocateAll nowhere ts := by
  match ss with
  | [] =>
    cases ts with
    | nil => rfl
    | cons => simp [forms] at h
  | s :: ss =>
    cases ts with
    | nil => simp [forms] at h
    | cons t ts =>
      simp only [forms, List.cons.injEq] at h
      simp only [areWellShaped, Bool.and_eq_true] at hs ht
      simp only [relocateAll, relocate_of_form hs.1 ht.1 h.1, relocateAll_of_forms hs.2 ht.2 h.2]

end

end Stmt

end Lox
