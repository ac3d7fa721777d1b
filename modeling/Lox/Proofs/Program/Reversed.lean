import Mathlib.Tactic.SplitIfs
import Lox.Proofs.Program.Relocation
import Lox.Proofs.Run.Transparency

namespace Lox

/-- What a reversed text consists of: numbers, and operators of one and of two operands. -/
inductive Entry
  | number (x : Float)
  | one (operator : Token)
  | two (operator : Token)

namespace Entry

def word : Entry → String
  | number x => Number.text x
  | one t => t.lexeme
  | two t => t.lexeme

def relocate (place : Int → Int) : Entry → Entry
  | number x => number x
  | one t => one (t.relocate place)
  | two t => two (t.relocate place)

/-- Puts the tree of an entry on top of those that are put aside. Its operands are the topmost of
them. -/
def push : List Expr → Entry → List Expr
  | es, number x => .literal (.num x) :: es
  | e :: es, one t => .unary t e :: es
  | b :: a :: es, two t => .binary a t b :: es
  | es, _ => es

end Entry

theorem Number.text_ne_empty (x : Float) : text x ≠ "" := by
  have hplain : ∀ d, Decimal.plain d ≠ [] := by
    intro d
    unfold Decimal.plain
    split <;> simp
  rw [text, write]
  split_ifs <;> simp [hplain]

namespace Expr

/-- Number literals, operators and groupings. -/
inductive IsArithmetic : Expr → Prop
  | number (x : Float) : IsArithmetic (literal (.num x))
  | one (t : Token) {e : Expr} (h : IsArithmetic e) : IsArithmetic (unary t e)
  | two {a b : Expr} (t : Token) (ha : IsArithmetic a) (hb : IsArithmetic b) :
      IsArithmetic (binary a t b)
  | group {e : Expr} (h : IsArithmetic e) : IsArithmetic (grouping e)

def entries : Expr → List Entry
  | literal (.num x) => [.number x]
  | unary t e => e.entries ++ [.one t]
  | binary a t b => a.entries ++ (b.entries ++ [.two t])
  | grouping e => e.entries
  | _ => []

variable {e : Expr}

theorem entries_ne_nil (h : e.IsArithmetic) : e.entries ≠ [] := by
  induction h with
  | number | one | two => simp [entries]
  | group _ ih => exact ih

theorem foldl_push (h : e.IsArithmetic) (es : List Expr) :
    e.entries.foldl Entry.push es = e.ungrouped :: es := by
  induction h generalizing es with
  | number => rfl
  | one t _ ih => simp [entries, ungrouped, ih, Entry.push]
  | two t _ _ iha ihb => simp [entries, ungrouped, iha, ihb, Entry.push]
  | group _ ih => exact ih es

theorem ungrouped_of_entries {f : Expr} (he : e.IsArithmetic) (hf : f.IsArithmetic)
    (h : e.entries = f.entries) :
    e.ungrouped = f.ungrouped := by
  have hread := foldl_push he []
  rw [h, foldl_push hf] at hread
  exact (List.cons.inj hread).1.symm

theorem reversed_eq (h : e.IsArithmetic) :
    e.reversed = " ".intercalate (e.entries.map Entry.word) ∧ e.reversed ≠ "" := by
  induction h with
  | number x => exact ⟨String.intercalate_singleton.symm, Number.text_ne_empty x⟩
  | @one t e h ih =>
    obtain ⟨htext, hne⟩ := ih
    have hwords : e.entries.map Entry.word ≠ [] := by simpa using entries_ne_nil h
    rw [entries, List.map_append, String.intercalate_append_of_ne_nil hwords (by simp), ← htext]
    simp [reversed, hne, Entry.word]
  | @two a b t ha hb iha ihb =>
    obtain ⟨hatext, hane⟩ := iha
    obtain ⟨hbtext, hbne⟩ := ihb
    have hawords : a.entries.map Entry.word ≠ [] := by simpa using entries_ne_nil ha
    have hbwords : b.entries.map Entry.word ≠ [] := by simpa using entries_ne_nil hb
    rw [entries, List.map_append, List.map_append, String.intercalate_append_of_ne_nil hawords (by simp),
      String.intercalate_append_of_ne_nil hbwords (by simp), ← hatext, ← hbtext]
    simp [reversed, hane, hbne, Entry.word, String.append_assoc]
  | group _ ih => exact ih

theorem isArithmetic_of_reversed (h : e.reversed ≠ "") : e.IsArithmetic := by
  induction e with
  | literal v =>
    cases v with
    | num x => exact .number x
    | nil | bool | str => exact absurd rfl h
  | unary t e ih =>
    refine .one t (ih fun he => h ?_)
    simp [reversed, he]
  | binary a t b iha ihb =>
    refine .two t (iha fun ha => h ?_) (ihb fun hb => h ?_)
    · simp [reversed, ha]
    · simp [reversed, hb]
  | grouping e ih => exact .group (ih h)
  | name | assign | logical => exact absurd rfl h

section Relocation

variable (place : Int → Int)

theorem IsArithmetic.relocate (h : e.IsArithmetic) : (e.relocate place).IsArithmetic := by
  induction h with
  | number x => exact .number x
  | one t _ ih => exact .one _ ih
  | two t _ _ iha ihb => exact .two _ iha ihb
  | group _ ih => exact .group ih

theorem ungrouped_relocate (e : Expr) : (e.relocate place).ungrouped = e.ungrouped.relocate place := by
  induction e with
  | literal v | name t => rfl
  | assign t e ih | unary t e ih => simp only [relocate, ungrouped, ih]
  | binary a t b iha ihb | logical a t b iha ihb => simp only [relocate, ungrouped, iha, ihb]
  | grouping e ih => exact ih

theorem entries_relocate (e : Expr) :
    (e.relocate place).entries = e.entries.map (Entry.relocate place) := by
  induction e with
  | literal v => cases v <;> rfl
  | unary t e ih => simp [relocate, entries, ih, Entry.relocate]
  | binary a t b iha ihb => simp [relocate, entries, iha, ihb, Entry.relocate]
  | grouping e ih => exact ih
  | name | assign | logical => rfl

end Relocation

theorem entries_ungrouped (e : Expr) : e.ungrouped.entries = e.entries := by
  induction e with
  | literal v | name t | assign t e ih | logical a t b iha ihb => rfl
  | unary t e ih => simp only [ungrouped, entries, ih]
  | binary a t b iha ihb => simp only [ungrouped, entries, iha, ihb]
  | grouping e ih => exact ih

end Expr

end Lox
