import Lox.Proofs.Source.Tiling
import Mathlib.Data.List.Forall2

namespace Lox

/-- The line of a place in a text, one more than there are line ends in front of it. -/
def lineOf (cs : List Char) (place : Nat) : Nat := 1 + (cs.take place).count '\n'

theorem lineOf_append {before line : List Char} (hl : '\n' ∉ line) {place : Nat}
    (hge : before.length ≤ place) (hle : place ≤ before.length + line.length) (after : List Char) :
    lineOf (before ++ (line ++ after)) place = 1 + before.count '\n' := by
  obtain ⟨n, rfl⟩ := Nat.exists_eq_add_of_le hge
  have hn : n ≤ line.length := by omega
  have hline : (line.take n).count '\n' = 0 := List.count_eq_zero.2 fun h => hl (List.mem_of_mem_take h)
  rw [lineOf, List.take_length_add_append, List.take_append_of_le_length hn, List.count_append, hline,
    Nat.add_zero]

theorem lineOf_add {cs text rest : List Char} {place : Nat} (h : cs.drop place = text ++ rest) :
    lineOf cs (place + text.length) = lineOf cs place + text.count '\n' := by
  rw [lineOf, lineOf, List.take_add, h, List.take_left, List.count_append, Nat.add_assoc]

/-- The token is spelled at this place, and stamped with the line on which it ends. -/
structure Token.StandsAt (cs : List Char) (t : Token) (place : Nat) : Prop where
  lexeme : t.lexeme.toList <+: cs.drop place
  line : t.line = lineOf cs (place + t.lexeme.toList.length)

inductive LexicalError.StandsAt (cs : List Char) : LexicalError → Nat → Prop
  | unexpected {c : Char} {place : Nat} (h : cs[place]? = some c) :
      StandsAt cs (.unexpected (lineOf cs place) c) place
  | unterminated {body : List Char} {place : Nat} (h : cs.drop place = '"' :: body) (hb : '"' ∉ body) :
      StandsAt cs (.unterminated (lineOf cs place)) place

/-- All have places of their own, each further on than the one before. -/
def InOrder {α : Type} (stands : α → Nat → Prop) (l : List α) : Prop :=
  ∃ places : List Nat, places.Pairwise (· < ·) ∧ List.Forall₂ stands l places

section InOrder

variable {α : Type} {stands : α → Nat → Prop} {l l' : List α}

theorem exists_sublist_forall₂ {places : List Nat} (hl : List.Sublist l' l)
    (h : List.Forall₂ stands l places) :
    ∃ places', List.Sublist places' places ∧ List.Forall₂ stands l' places' := by
  induction hl generalizing places with
  | slnil => exact ⟨[], List.nil_sublist _, .nil⟩
  | cons a _ ih =>
    cases h with
    | cons _ h =>
      obtain ⟨places', hs, h'⟩ := ih h
      exact ⟨places', hs.cons _, h'⟩
  | cons_cons a _ ih =>
    cases h with
    | cons ha h =>
      obtain ⟨places', hs, h'⟩ := ih h
      exact ⟨_ :: places', hs.cons_cons _, .cons ha h'⟩

theorem InOrder.sublist (h : InOrder stands l) (hl : List.Sublist l' l) : InOrder stands l' := by
  obtain ⟨places, hp, h⟩ := h
  obtain ⟨places', hs, h'⟩ := exists_sublist_forall₂ hl h
  exact ⟨places', hp.sublist hs, h'⟩

theorem InOrder.exists_of_mem (h : InOrder stands l) {a : α} (ha : a ∈ l) : ∃ place, stands a place := by
  obtain ⟨places, -, h⟩ := h
  induction h with
  | nil => cases ha
  | cons hs _ ih =>
    obtain rfl | ha := List.mem_cons.1 ha
    · exact ⟨_, hs⟩
    · exact ih ha

theorem exists_places_filterMap {β : Type} {f : Nat × β → Option α} (qs : List (Nat × β))
    (h : ∀ q ∈ qs, ∀ a, f q = some a → stands a q.1) :
    ∃ places, List.Sublist places (qs.map Prod.fst) ∧ List.Forall₂ stands (qs.filterMap f) places := by
  induction qs with
  | nil => exact ⟨[], List.Sublist.refl _, .nil⟩
  | cons q qs ih =>
    obtain ⟨hq, hqs⟩ := List.forall_mem_cons.1 h
    obtain ⟨places, hs, hp⟩ := ih hqs
    rw [List.map_cons]
    cases hf : f q with
    | none =>
      rw [List.filterMap_cons_none hf]
      exact ⟨places, hs.cons _, hp⟩
    | some a =>
      rw [List.filterMap_cons_some hf]
      exact ⟨q.1 :: places, hs.cons_cons _, .cons (hq a hf) hp⟩

end InOrder

namespace Piece

def placed : Nat → List Piece → List (Nat × Piece)
  | _, [] => []
  | place, p :: ps => (place, p) :: placed (place + p.text.length) ps

theorem numbered_eq_map_placed (before : List Char) (ps : List Piece) :
    numbered (1 + before.count '\n') ps =
      (placed before.length ps).map fun (place, p) => (lineOf (before ++ ps.flatMap text) place, p) := by
  induction ps generalizing before with
  | nil => rfl
  | cons p ps ih =>
    have h := ih (before ++ p.text)
    simp only [List.count_append, List.length_append, List.append_assoc] at h
    simp only [numbered, placed, newlines, Nat.add_assoc, h, List.map_cons, List.flatMap_cons, lineOf,
      List.take_left]

theorem numbered_split (cs : List Char) :
    numbered 1 (split cs) = (placed 0 (split cs)).map fun (place, p) => (lineOf cs place, p) := by
  have h := numbered_eq_map_placed [] (split cs)
  rwa [List.nil_append, flatMap_text_split] at h

theorem Tiling.fits_of_mem_placed {ps : List Piece} {cs : List Char} (h : Tiling ps cs)
    (before : List Char) {place : Nat} {p : Piece} (hp : (place, p) ∈ placed before.length ps) :
    ∃ rest, (before ++ cs).drop place = p.text ++ rest ∧ Fits p rest := by
  induction h generalizing before with
  | nil => cases hp
  | @cons q ps rest hq ht ih =>
    rw [placed, List.mem_cons] at hp
    obtain hp | hp := hp
    · cases hp
      exact ⟨rest, by rw [List.drop_left], hq⟩
    · have hp' : (place, p) ∈ placed (before ++ q.text).length ps := by rwa [List.length_append]
      simpa only [List.append_assoc] using ih (before ++ q.text) hp'

theorem le_of_mem_placed {ps : List Piece} {start place : Nat} {p : Piece}
    (h : (place, p) ∈ placed start ps) :
    start ≤ place := by
  induction ps generalizing start with
  | nil => cases h
  | cons q ps ih =>
    rw [placed, List.mem_cons] at h
    obtain h | h := h
    · cases h
      exact Nat.le_refl _
    · have := ih h
      omega

theorem pairwise_placed (start : Nat) (ps : List Piece) :
    (placed start ps).Pairwise fun a b => a.1 + a.2.text.length ≤ b.1 := by
  induction ps generalizing start with
  | nil => exact .nil
  | cons q ps ih => exact .cons (fun b hb => le_of_mem_placed hb) (ih _)

theorem map_snd_placed (start : Nat) (ps : List Piece) : (placed start ps).map Prod.snd = ps := by
  induction ps generalizing start with
  | nil => rfl
  | cons q ps ih => rw [placed, List.map_cons, ih]

theorem Tiling.pairwise_placed {ps : List Piece} {cs : List Char} (h : Tiling ps cs) (start : Nat) :
    (placed start ps).Pairwise fun a b => a.1 < b.1 := by
  refine (Piece.pairwise_placed start ps).imp_of_mem fun {a b} ha _ hab => ?_
  have hmem : a.2 ∈ ps := map_snd_placed start ps ▸ List.mem_map_of_mem ha
  obtain ⟨rest, hfit⟩ := h.fits a.2 hmem
  have hpos := List.length_pos_iff.2 hfit.text_ne_nil
  omega

variable {α : Type} {stands : α → Nat → Prop} {f : Nat → Piece → Option α} {cs : List Char}

theorem exists_places_collect (h : ∀ place p rest a, cs.drop place = p.text ++ rest → Fits p rest →
    f (lineOf cs place) p = some a → stands a place) :
    ∃ places : List Nat, places.Pairwise (· < ·) ∧ (∀ place ∈ places, place < cs.length) ∧
      List.Forall₂ stands ((numbered 1 (split cs)).filterMap fun (n, p) => f n p) places := by
  have hfits : ∀ place p, (place, p) ∈ placed 0 (split cs) →
      ∃ rest, cs.drop place = p.text ++ rest ∧ Fits p rest :=
    fun place p hp => (tiling_split cs).fits_of_mem_placed [] hp
  obtain ⟨places, hs, hp⟩ :=
    exists_places_filterMap (f := fun q => f (lineOf cs q.1) q.2) (placed 0 (split cs))
    fun q hq a ha => by
      obtain ⟨rest, hrest, hfit⟩ := hfits q.1 q.2 hq
      exact h q.1 q.2 rest a hrest hfit ha
  refine ⟨places, ?_, fun place hplace => ?_, ?_⟩
  · exact (List.pairwise_map.2 ((tiling_split cs).pairwise_placed 0)).sublist hs
  · obtain ⟨⟨_, p⟩, hq, rfl⟩ := List.mem_map.1 (hs.subset hplace)
    obtain ⟨rest, hrest, hfit⟩ := hfits _ p hq
    -- behind the end there is no text for a piece
    by_contra hle
    rw [List.drop_eq_nil_of_le (by simpa using hle)] at hrest
    exact hfit.text_ne_nil (List.append_eq_nil_iff.1 hrest.symm).1
  · rw [numbered_split, List.filterMap_map]
    exact hp

theorem standsAt_of_token? {p : Piece} {place : Nat} {rest : List Char} {t : Token}
    (hr : cs.drop place = p.text ++ rest) (ht : p.token? (lineOf cs place) = some t) :
    t.StandsAt cs place := by
  cases p with
  | token k text v =>
    cases ht
    refine ⟨?_, ?_⟩
    · rw [hr, String.toList_ofList]
      exact List.prefix_append _ _
    · have hline : lineOf cs (place + text.length) = lineOf cs place + text.count '\n' := lineOf_add hr
      rw [String.toList_ofList, hline]
      rfl
  | gap | stray | unclosed => cases ht

theorem Fits.standsAt_of_error? {p : Piece} {place : Nat} {rest : List Char} {e : LexicalError}
    (h : Fits p rest) (hr : cs.drop place = p.text ++ rest)
    (he : p.error? (lineOf cs place) = some e) : e.StandsAt cs place := by
  cases h with
  | @stray c =>
    cases he
    have hc : cs[place]? = some c := by rw [← List.head?_drop, hr]; rfl
    exact .unexpected hc
  | @unclosed body hb =>
    cases he
    rw [List.append_nil] at hr
    exact .unterminated hr hb
  | token | blank | lineComment | blockComment | openComment => cases he

end Piece

open Piece

theorem scan_errors_inOrder (source : String) :
    InOrder (LexicalError.StandsAt source.toList) (scan source).errors := by
  obtain ⟨places, hp, -, h⟩ := exists_places_collect (f := fun n p => p.error? n)
    fun place p rest e hr hfit he => hfit.standsAt_of_error? hr he
  exact ⟨places, hp, h⟩

theorem scan_tokens_inOrder (source : String) :
    InOrder (Token.StandsAt source.toList) (scan source).tokens := by
  obtain ⟨places, hp, hlt, h⟩ := exists_places_collect (f := fun n p => p.token? n)
    fun place p rest t hr _ ht => standsAt_of_token? hr ht
  rw [scan_tokens]
  refine ⟨places ++ [source.toList.length], ?_, List.rel_append h (.cons ⟨List.nil_prefix, ?_⟩ .nil)⟩
  · rw [List.pairwise_append]
    exact ⟨hp, List.pairwise_singleton _ _, by simpa using hlt⟩
  · simp [lineOf]

end Lox
