import Lox.Proofs.Source.Delimited

namespace Lox

/-- A call has a word in front of its items. Words are tokens apart from their lines. -/
inductive Form
  | word (w : Kind × String × Value)
  | call (head : Kind × String × Value) (items : List Form)

namespace Form

mutual

def text : Form → List Char
  | word w => w.2.1.toList
  | call w fs => '(' :: (w.2.1.toList ++ (behind ' ' fs ++ [')']))

def behind (mark : Char) : List Form → List Char
  | [] => []
  | f :: fs => mark :: (f.text ++ behind mark fs)

end

def IsWord (w : Kind × String × Value) : Prop := Lexeme w.2.1.toList w.1 w.2.2 ∧ w.1 ≠ .leftParen

inductive Legible : Form → Prop
  | word {w : Kind × String × Value} (h : IsWord w) : Legible (.word w)
  | call {w : Kind × String × Value} {fs : List Form} (h : IsWord w) (hs : ∀ f ∈ fs, Legible f) :
      Legible (.call w fs)

/-- Whatever follows the form, its text tells it from other forms and from what follows. -/
def Determined (f : Form) : Prop :=
  ∀ g rest rest', Legible g → Delimited rest → Delimited rest' → f.text ++ rest = g.text ++ rest' →
    f = g ∧ rest = rest'

variable {w w' : Kind × String × Value} {rest rest' : List Char}

theorem IsWord.append_inj (h : IsWord w) (h' : IsWord w') (hr : Delimited rest) (hr' : Delimited rest')
    (he : w.2.1.toList ++ rest = w'.2.1.toList ++ rest') : w = w' ∧ rest = rest' := by
  obtain ⟨ht, hk, hv, hrest⟩ := h.1.append_inj h'.1 hr hr' he
  exact ⟨Prod.ext hk (Prod.ext (String.toList_inj.1 ht) hv), hrest⟩

theorem IsWord.append_ne (h : IsWord w) (cs : List Char) : w.2.1.toList ++ rest ≠ '(' :: cs := by
  intro he
  obtain ⟨c, t, ht⟩ := List.exists_cons_of_ne_nil h.1.ne_nil
  rw [ht, List.cons_append, List.cons.injEq] at he
  obtain ⟨rfl, -⟩ := he
  have hl := h.1
  rw [ht] at hl
  exact h.2 (Piece.token.inj hl.first_eq).1.symm

variable {mark : Char}

theorem delimited_behind (hm : goesOn mark = false) (fs : List Form) (hr : Delimited rest) :
    Delimited (behind mark fs ++ rest) := by
  cases fs with
  | nil => exact hr
  | cons f fs => exact delimited_cons hm _

theorem behind_inj (hm : goesOn mark = false) {fs gs : List Form} (hf : ∀ f ∈ fs, Determined f)
    (hg : ∀ g ∈ gs, Legible g) (hr : Delimited rest) (hr' : Delimited rest')
    (hs : rest.head? ≠ some mark) (hs' : rest'.head? ≠ some mark)
    (h : behind mark fs ++ rest = behind mark gs ++ rest') :
    fs = gs ∧ rest = rest' := by
  induction fs generalizing gs with
  | nil =>
    cases gs with
    | nil => exact ⟨rfl, h⟩
    | cons g gs => exact absurd (congrArg List.head? h) hs
  | cons f fs ih =>
    cases gs with
    | nil => exact absurd (congrArg List.head? h.symm) hs'
    | cons g gs =>
      obtain ⟨hf, hfs⟩ := List.forall_mem_cons.1 hf
      obtain ⟨hg, hgs⟩ := List.forall_mem_cons.1 hg
      simp only [behind, List.cons_append, List.append_assoc, List.cons.injEq, true_and] at h
      obtain ⟨rfl, htail⟩ := hf g _ _ hg (delimited_behind hm fs hr) (delimited_behind hm gs hr') h
      obtain ⟨hitems, hrest⟩ := ih hfs hgs htail
      exact ⟨by rw [hitems], hrest⟩

theorem Legible.determined {f : Form} (h : Legible f) : f.Determined := by
  induction h with
  | @word w h =>
    rintro (w' | ⟨w', gs⟩) rest rest' hg hr hr' he
    · cases hg with
      | word h' =>
        obtain ⟨rfl, hrest⟩ := h.append_inj h' hr hr' he
        exact ⟨rfl, hrest⟩
    · exact absurd he (h.append_ne _)
  | @call w fs h _ ih =>
    rintro (w' | ⟨w', gs⟩) rest rest' hg hr hr' he
    · cases hg with
      | word h' => exact absurd he.symm (h'.append_ne _)
    · cases hg with
      | call h' hgs =>
        have hclose : ∀ cs, Delimited (')' :: cs) := delimited_cons (by decide)
        have hd : ∀ fs cs, Delimited (behind ' ' fs ++ ')' :: cs) := fun fs cs =>
          delimited_behind (by decide) fs (hclose cs)
        simp only [text, List.cons_append, List.append_assoc, List.nil_append, List.cons.injEq,
          true_and] at he
        obtain ⟨rfl, hitems⟩ := h.append_inj h' (hd _ _) (hd _ _) he
        obtain ⟨rfl, hrest⟩ :=
          behind_inj (by decide) ih hgs (hclose _) (hclose _) (by simp) (by simp) hitems
        exact ⟨rfl, (List.cons.inj hrest).2⟩

theorem behind_newline_inj {fs gs : List Form} (hf : ∀ f ∈ fs, Legible f) (hg : ∀ g ∈ gs, Legible g)
    (h : behind '\n' fs = behind '\n' gs) : fs = gs := by
  have hrest : behind '\n' fs ++ [] = behind '\n' gs ++ [] := by rw [h]
  exact (behind_inj (by decide) (fun f hm => (hf f hm).determined) hg delimited_nil delimited_nil
    (by simp)
    (by simp) hrest).1

end Form

end Lox
