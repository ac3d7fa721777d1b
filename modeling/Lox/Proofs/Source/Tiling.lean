import Lox.Proofs.Source.Lexeme

namespace Lox

namespace Piece

def blanks : List Char := [' ', '\t', '\r', '\n']

/-- A piece as it may stand in front of the rest of a source. -/
inductive Fits : Piece → List Char → Prop
  | token {t rest : List Char} {k : Kind} {v : Value} (h : Lexeme t k v)
      (hl : ¬ ['/', '/'] <+: t ++ rest) (hb : ¬ ['/', '*'] <+: t ++ rest)
      (longest : ∀ t' k' v', Lexeme t' k' v' → t' <+: t ++ rest → t'.length ≤ t.length) :
      Fits (.token k t v) rest
  | blank {c : Char} {rest : List Char} (h : c ∈ blanks) : Fits (.gap [c]) rest
  | lineComment {body rest : List Char} (h : '\n' ∉ body) (hr : ∀ c ∈ rest.head?, c = '\n') :
      Fits (.gap ('/' :: '/' :: body)) rest
  | blockComment {body rest : List Char}
      (first : ∀ w, w ++ ['*', '/'] <+: body ++ ['*', '/'] → w = body) :
      Fits (.gap ('/' :: '*' :: (body ++ ['*', '/']))) rest
  | openComment {body : List Char} (h : ¬ ['*', '/'] <:+: body) : Fits (.gap ('/' :: '*' :: body)) []
  | stray {c : Char} {rest : List Char} (hb : c ∉ blanks) (h : ∀ t k v, ¬ Lexeme (c :: t) k v) :
      Fits (.stray c) rest
  | unclosed {body : List Char} (h : '"' ∉ body) : Fits (.unclosed ('"' :: body)) []

inductive Tiling : List Piece → List Char → Prop
  | nil : Tiling [] []
  | cons {p : Piece} {ps : List Piece} {rest : List Char} (h : Fits p rest) (ht : Tiling ps rest) :
      Tiling (p :: ps) (p.text ++ rest)

theorem isSpace_iff {c : Char} : isSpace c = true ↔ c ∈ blanks := by
  simp only [isSpace, blanks, Bool.or_eq_true, beq_iff_eq, List.mem_cons, List.not_mem_nil, or_false]
  grind

theorem first_of_blank {c : Char} (h : c ∈ blanks) (cs : List Char) : first c cs = gap [c] := by
  simp only [blanks, List.mem_cons, List.not_mem_nil, or_false] at h
  obtain rfl | rfl | rfl | rfl := h <;> rfl

/-- What the first piece of a text can be. -/
inductive Start : Char → List Char → Piece → Prop
  | token {c : Char} {cs t : List Char} {k : Kind} {v : Value} (h : Lexeme t k v) :
      Start c cs (.token k t v)
  | blank {c : Char} {cs : List Char} (h : c ∈ blanks) : Start c cs (.gap [c])
  | lineComment {cs : List Char} :
      Start '/' ('/' :: cs) (.gap ('/' :: '/' :: cs.takeWhile (· != '\n')))
  | blockComment {cs : List Char} : Start '/' ('*' :: cs) (.gap ('/' :: '*' :: throughClose cs))
  | unclosed {cs : List Char} (h : '"' ∉ cs) : Start '"' cs (.unclosed ('"' :: cs))
  | stray {c : Char} {cs : List Char} (hb : c ∉ blanks) (h : ∀ ds, first c ds = .stray c) :
      Start c cs (.stray c)

theorem start_ofSlash (cs : List Char) : Start '/' cs (ofSlash cs) := by
  unfold ofSlash
  split
  · exact .lineComment
  · exact .blockComment
  · exact .token (.mark (by decide))

theorem start_ofQuote (cs : List Char) : Start '"' cs (ofQuote cs) := by
  by_cases h : '"' ∈ cs
  · obtain ⟨body, rest, rfl, hb⟩ := List.eq_append_cons_of_mem h
    rw [ofQuote_of_close hb]
    exact .token (.string hb)
  · rw [ofQuote_of_unclosed h]
    exact .unclosed h

theorem start_first (c : Char) (cs : List Char) : Start c cs (first c cs) := by
  unfold first
  split
  case h_1 hs => exact .token (.mark (mem_marks_of_single? hs))
  case h_2 hd =>
    split
    · exact .token (.mark (mem_marks_of_double? hd).2)
    · exact .token (.mark (mem_marks_of_double? hd).1)
  case h_3 hs hd =>
    split
    next hslash =>
      subst hslash
      exact start_ofSlash cs
    next hslash =>
      split
      next hspace => exact .blank (isSpace_iff.1 hspace)
      next hspace =>
        split
        next hquote =>
          subst hquote
          exact start_ofQuote cs
        next hquote =>
          split
          next hdigit =>
            obtain ⟨t, v, he, hl⟩ := lexeme_ofDigit hdigit cs
            rw [he]
            exact .token hl
          next hdigit =>
            split
            next hletter => exact .token (.word hletter fun d hd => List.mem_takeWhile_imp hd)
            next hletter =>
              refine .stray (fun hb => hspace (isSpace_iff.2 hb)) fun ds => ?_
              unfold first
              rw [hs, hd]
              simp [hslash, hspace, hquote, hdigit, hletter]

theorem throughClose_cases (cs : List Char) :
    (∃ body, throughClose cs = body ++ ['*', '/'] ∧ ∀ w, w ++ ['*', '/'] <+: body ++ ['*', '/'] →
      w = body) ∨
      throughClose cs = cs ∧ ¬ ['*', '/'] <:+: cs := by
  fun_induction throughClose cs with
  | case1 => exact .inr ⟨rfl, by simp⟩
  | case2 cs =>
    refine .inl ⟨[], rfl, fun w hw => ?_⟩
    have hl := hw.length_le
    simp only [List.length_append, List.nil_append] at hl
    exact List.eq_nil_of_length_eq_zero (by omega)
  | case3 c cs hne ih =>
    have hstart : ∀ ds, ds <+: cs → ¬ ['*', '/'] <+: c :: ds := by
      rintro ds ⟨rest, rfl⟩ hp
      obtain ⟨hc, us, rfl⟩ := List.cons_prefix_cons.1 hp
      exact hne _ hc.symm rfl
    obtain ⟨body, hb, hfirst⟩ | ⟨ht, hn⟩ := ih
    · refine .inl ⟨c :: body, by rw [hb]; rfl, fun w hw => ?_⟩
      cases w with
      | nil =>
        have hp := isPrefix_throughClose cs
        rw [hb] at hp
        exact absurd hw (hstart _ hp)
      | cons d w =>
        obtain ⟨hd, hw'⟩ := List.cons_prefix_cons.1 hw
        rw [hd, hfirst w hw']
    · refine .inr ⟨by rw [ht], fun hi => ?_⟩
      obtain hp | hi := List.infix_cons_iff.1 hi
      · exact hstart cs (List.prefix_refl cs) hp
      · exact hn hi

theorem throughClose_of_close {body : List Char}
    (h : ∀ w, w ++ ['*', '/'] <+: body ++ ['*', '/'] → w = body) (rest : List Char) :
    throughClose (body ++ '*' :: '/' :: rest) = body ++ ['*', '/'] := by
  have hp : body ++ ['*', '/'] <+: body ++ '*' :: '/' :: rest := ⟨rest, by simp⟩
  obtain ⟨body', hb, hfirst⟩ | ⟨_, hn⟩ := throughClose_cases (body ++ '*' :: '/' :: rest)
  · have hp' := isPrefix_throughClose (body ++ '*' :: '/' :: rest)
    rw [hb] at hp' ⊢
    obtain hle | hle := List.prefix_or_prefix_of_prefix hp hp'
    · rw [hfirst body hle]
    · rw [h body' hle]
  · exact absurd ((List.suffix_append body _).isInfix.trans hp.isInfix) hn

theorem throughClose_of_open {cs : List Char} (h : ¬ ['*', '/'] <:+: cs) : throughClose cs = cs := by
  obtain ⟨body, hb, _⟩ | ⟨ht, _⟩ := throughClose_cases cs
  · have hp : body ++ ['*', '/'] <+: cs := hb ▸ isPrefix_throughClose cs
    exact absurd ((List.suffix_append body _).isInfix.trans hp.isInfix) h
  · exact ht

theorem fits_first {c : Char} {cs rest : List Char} (hr : (first c cs).text ++ rest = c :: cs) :
    Fits (first c cs) rest := by
  have hs := start_first c cs
  generalize hp : first c cs = p at hs hr
  cases hs with
  | @token _ _ t k v h =>
    change t ++ rest = c :: cs at hr
    refine .token h ?_ ?_ fun t' k' v' h' ht' => ?_
    · rw [hr]
      intro hc
      obtain ⟨rfl, us, rfl⟩ := List.cons_prefix_cons.1 hc
      cases hp
    · rw [hr]
      intro hc
      obtain ⟨rfl, us, rfl⟩ := List.cons_prefix_cons.1 hc
      cases hp
    · rw [hr] at ht'
      have hl := h'.length_le ht'
      rwa [hp] at hl
  | blank h => exact .blank h
  | @lineComment ds =>
    refine .lineComment (fun hn => by simpa using List.mem_takeWhile_imp hn) ?_
    have hd : rest = ds.dropWhile (· != '\n') := by
      have ha := List.takeWhile_append_dropWhile (p := (· != '\n')) (l := ds)
      simp only [text, List.cons_append, List.cons.injEq, true_and] at hr
      exact List.append_cancel_left (hr.trans ha.symm)
    intro d hm
    have hh := List.head?_dropWhile_not (· != '\n') ds
    rw [← hd, Option.mem_def.1 hm] at hh
    simpa using hh
  | @blockComment ds =>
    simp only [text, List.cons_append, List.cons.injEq, true_and] at hr
    obtain ⟨body, hb, hfirst⟩ | ⟨ht, hn⟩ := throughClose_cases ds
    · rw [hb]
      exact .blockComment hfirst
    · have hrest : rest = [] := by
        rw [ht] at hr
        simpa using hr
      rw [ht, hrest]
      exact .openComment hn
  | unclosed h =>
    have hrest : rest = [] := by simpa [text] using hr
    rw [hrest]
    exact .unclosed h
  | stray hb h => exact .stray hb fun t k v hl => by cases (h t).symm.trans hl.first_eq

theorem Fits.first_eq {p : Piece} {c : Char} {cs rest : List Char} (h : Fits p rest)
    (hr : p.text ++ rest = c :: cs) : first c cs = p := by
  cases h with
  | @token t _ k v h hl hb longest =>
    change t ++ rest = c :: cs at hr
    have hle := h.length_le (hr ▸ List.prefix_append t rest)
    have hq := start_first c cs
    have hpre := isPrefix_first c cs
    obtain ⟨t, rfl⟩ : ∃ t', t = c :: t' := by
      cases t with
      | nil => exact absurd rfl h.ne_nil
      | cons d t' => exact ⟨t', by rw [(List.cons.inj hr).1]⟩
    generalize first c cs = q at hle hq hpre
    cases hq with
    | @token _ _ t' k' v' h' =>
      have hlen : t'.length = (c :: t).length := Nat.le_antisymm (longest t' k' v' h' (hr ▸ hpre)) hle
      have ht : t' = c :: t := (List.prefix_of_prefix_length_le hpre (hr ▸ List.prefix_append _ rest)
        (Nat.le_of_eq hlen)).eq_of_length hlen
      subst ht
      obtain ⟨rfl, rfl⟩ := h.unique h'
      rfl
    | blank hc => cases (first_of_blank hc t).symm.trans h.first_eq
    | lineComment => exact absurd (hr ▸ ⟨_, rfl⟩) hl
    | blockComment => exact absurd (hr ▸ ⟨_, rfl⟩) hb
    | unclosed hc =>
      have hq : '"' ∉ t := fun hq => hc ((List.cons.inj hr).2 ▸ List.mem_append_left rest hq)
      cases (ofQuote_of_unclosed hq).symm.trans h.first_eq
    | stray _ hc => cases (hc t).symm.trans h.first_eq
  | blank h =>
    obtain ⟨rfl, rfl⟩ := List.cons.inj hr
    exact first_of_blank h _
  | @lineComment body _ h hn =>
    obtain ⟨rfl, rfl⟩ := List.cons.inj hr
    have hb := bne_of_not_mem h
    have ht : (body ++ rest).takeWhile (· != '\n') = body := by
      rw [List.takeWhile_append_of_pos hb]
      cases rest with
      | nil => simp
      | cons d ds => simp [hn d rfl]
    change gap ('/' :: '/' :: (body ++ rest).takeWhile (· != '\n')) = gap ('/' :: '/' :: body)
    rw [ht]
  | @blockComment body _ hf =>
    obtain ⟨rfl, rfl⟩ := List.cons.inj hr
    have ht := throughClose_of_close hf rest
    change gap ('/' :: '*' :: throughClose (body ++ ['*', '/'] ++ rest)) =
      gap ('/' :: '*' :: (body ++ ['*', '/']))
    rw [List.append_assoc]
    exact congrArg (fun t => gap ('/' :: '*' :: t)) ht
  | @openComment body h =>
    obtain ⟨rfl, rfl⟩ := List.cons.inj hr
    change gap ('/' :: '*' :: throughClose (body ++ [])) = gap ('/' :: '*' :: body)
    rw [List.append_nil, throughClose_of_open h]
  | @stray c' _ hb h =>
    obtain ⟨rfl, rfl⟩ := List.cons.inj hr
    have hq := start_first c' ([] ++ rest)
    have hpre := isPrefix_first c' ([] ++ rest)
    generalize first c' ([] ++ rest) = q at hq hpre
    cases hq with
    | @token _ _ t k v h' =>
      cases t with
      | nil => exact absurd rfl h'.ne_nil
      | cons d t =>
        obtain ⟨rfl, _⟩ := List.cons_prefix_cons.1 hpre
        exact absurd h' (h t k v)
    | blank hc => exact absurd hc hb
    | lineComment | blockComment => exact absurd (.mark (by decide)) (h [] .slash .nil)
    | unclosed => exact absurd (.string List.not_mem_nil) (h ['"'] .string (.str (String.ofList [])))
    | stray => rfl
  | @unclosed body h =>
    obtain ⟨rfl, rfl⟩ := List.cons.inj hr
    change ofQuote (body ++ []) = .unclosed ('"' :: body)
    rw [List.append_nil, ofQuote_of_unclosed h]

theorem Fits.text_ne_nil {p : Piece} {rest : List Char} (h : Fits p rest) : p.text ≠ [] := by
  cases h with
  | token h => exact h.ne_nil
  | blank | lineComment | blockComment | openComment | stray | unclosed => exact List.cons_ne_nil _ _

theorem tiling_split (cs : List Char) : Tiling (split cs) cs := by
  induction hn : cs.length using Nat.strongRecOn generalizing cs with
  | ind n ih =>
    cases cs with
    | nil => exact .nil
    | cons c cs =>
      have hpos := List.length_pos_iff.2 (first_text_ne_nil c cs)
      obtain ⟨rest, hr⟩ := isPrefix_first c cs
      have hlen := congrArg List.length hr
      simp only [List.length_append] at hlen
      have hd : (c :: cs).drop (first c cs).text.length = rest := by rw [← hr, List.drop_left]
      rw [split_cons, hd]
      have ht : Tiling (split rest) rest := ih rest.length (by omega) rest rfl
      exact hr ▸ .cons (fits_first hr) ht

theorem Tiling.eq_split {ps : List Piece} {cs : List Char} (h : Tiling ps cs) : ps = split cs := by
  induction h with
  | nil => rfl
  | @cons p ps rest h _ ih =>
    cases ht : p.text with
    | nil => exact absurd ht h.text_ne_nil
    | cons c t =>
      have hf : first c (t ++ rest) = p := h.first_eq (by rw [ht]; rfl)
      rw [List.cons_append, split_cons, hf, ht, ← List.cons_append, List.drop_left, ih]

def classified? : Piece → Option (Kind × String × Value)
  | token k t v => some (k, String.ofList t, v)
  | _ => none

theorem map_snd_numbered (line : Nat) (ps : List Piece) : (numbered line ps).map Prod.snd = ps := by
  induction ps generalizing line with
  | nil => rfl
  | cons p ps ih => rw [numbered, List.map_cons, ih]

theorem map_filterMap_numbered {α β : Type} {f : Nat → Piece → Option α} {g : α → β}
    {h : Piece → Option β} (hf : ∀ line p, (f line p).map g = h p) (line : Nat) (ps : List Piece) :
    ((numbered line ps).filterMap fun (n, p) => f n p).map g = ps.filterMap h := by
  have hsnd : (fun x : Nat × Piece => (f x.1 x.2).map g) = h ∘ Prod.snd := funext fun x => hf x.1 x.2
  calc ((numbered line ps).filterMap fun (n, p) => f n p).map g
      = (numbered line ps).filterMap fun x => (f x.1 x.2).map g := List.map_filterMap
    _ = ((numbered line ps).map Prod.snd).filterMap h := by rw [hsnd, List.filterMap_map]
    _ = ps.filterMap h := by rw [map_snd_numbered]

theorem Tiling.fits {ps : List Piece} {cs : List Char} (h : Tiling ps cs) :
    ∀ p ∈ ps, ∃ rest, Fits p rest := by
  induction h with
  | nil => exact fun _ hp => absurd hp List.not_mem_nil
  | cons h _ ih => exact List.forall_mem_cons.2 ⟨⟨_, h⟩, ih⟩

theorem Tiling.kind_ne_eof {ps : List Piece} {cs : List Char} (h : Tiling ps cs) :
    ∀ x ∈ ps.filterMap classified?, x.1 ≠ .eof := by
  intro x hx
  obtain ⟨p, hp, he⟩ := List.mem_filterMap.1 hx
  obtain ⟨rest, hf⟩ := h.fits p hp
  cases hf with
  | token h =>
    cases he
    exact h.kind_ne_eof
  | blank | lineComment | blockComment | openComment | stray | unclosed => cases he

end Piece

def Token.reading (t : Token) : Kind × String × Value := (t.kind, t.lexeme, t.literal)

def LexicalError.unplaced : LexicalError → LexicalError
  | .unexpected _ c => .unexpected 0 c
  | .unterminated _ => .unterminated 0
  | .other _ message hint => .other none message hint

namespace Piece

theorem map_reading_token? (line : Nat) (p : Piece) :
    (p.token? line).map Token.reading = p.classified? := by
  cases p <;> rfl

theorem map_unplaced_error? (line : Nat) (p : Piece) :
    (p.error? line).map LexicalError.unplaced = p.error? 0 := by
  cases p <;> rfl

end Piece

open Piece

theorem map_reading_tokens (source : String) :
    (scan source).tokens.map Token.reading =
      (split source.toList).filterMap classified? ++ [(.eof, "", .nil)] := by
  rw [scan, List.map_append, map_filterMap_numbered map_reading_token?]
  rfl

theorem map_unplaced_errors (source : String) :
    (scan source).errors.map LexicalError.unplaced = (split source.toList).filterMap (error? 0) :=
  map_filterMap_numbered map_unplaced_error? 1 _

theorem scan_lexemes (source : String) :
    ∀ t ∈ (scan source).tokens, t.kind ≠ .eof → Lexeme t.lexeme.toList t.kind t.literal := by
  intro t ht hk
  obtain ht | ht := List.mem_append.1 ht
  · obtain ⟨⟨n, p⟩, hp, htoken⟩ := List.mem_filterMap.1 ht
    have hsplit : p ∈ split source.toList := by
      rw [← map_snd_numbered 1 (split _)]
      exact List.mem_map_of_mem hp
    obtain ⟨rest, hfits⟩ := (tiling_split _).fits p hsplit
    cases hfits with
    | token h =>
      cases htoken
      simpa using h
    | blank | lineComment | blockComment | openComment | stray | unclosed => cases htoken
  · rw [List.mem_singleton.1 ht] at hk
    exact absurd rfl hk

/-- Every source is tiled in one way. The scan has the token of each tile that is one, then one end
mark, and an error for each mistake, all in order. -/
theorem scan_tiling (source : String) :
    ∃ ps, Tiling ps source.toList ∧ (∀ qs, Tiling qs source.toList → qs = ps) ∧
      (scan source).tokens.map (fun t => (t.kind, t.lexeme, t.literal)) =
        ps.filterMap classified? ++ [(.eof, "", .nil)] ∧
      (∀ x ∈ ps.filterMap classified?, x.1 ≠ .eof) ∧
      (scan source).errors.map LexicalError.unplaced = ps.filterMap (error? 0) := by
  have ht := tiling_split source.toList
  exact ⟨split source.toList, ht, fun qs hq => hq.eq_split, map_reading_tokens source, ht.kind_ne_eof,
    map_unplaced_errors source⟩

end Lox
