import Lox.Proofs.Source.Seam

namespace Lox

namespace Piece

theorem not_infix_concat_newline {body : List Char} (h : ¬ ['*', '/'] <:+: body) :
    ¬ ['*', '/'] <:+: body ++ ['\n'] := by
  intro hi
  obtain ⟨w, hw⟩ | hi := List.infix_concat_iff.1 hi
  · have hl := congrArg List.getLast? hw
    simp at hl
  · exact h hi

/-- A comment that is not closed takes the line end in. -/
theorem Tiling.concat_newline {ps : List Piece} {body cs : List Char}
    (h : Tiling (ps ++ [.gap ('/' :: '*' :: body)]) cs) (hn : ¬ ['*', '/'] <:+: body)
    (hu : ∀ p ∈ ps, ∀ t, p ≠ .unclosed t) :
    Tiling (ps ++ [.gap ('/' :: '*' :: (body ++ ['\n']))]) (cs ++ ['\n']) := by
  induction ps generalizing cs with
  | nil =>
    cases h with
    | cons hf ht =>
      obtain rfl := hf.eq_nil_of_isOpenComment ⟨body, rfl, hn⟩
      have hopen : Fits (.gap ('/' :: '*' :: (body ++ ['\n']))) [] :=
        .openComment (not_infix_concat_newline hn)
      simpa [text] using Tiling.cons hopen .nil
  | cons p ps ih =>
    cases h with
    | @cons _ _ rest hf ht =>
      obtain ⟨hp, hps⟩ := List.forall_mem_cons.1 hu
      -- an open comment is the last piece, and this one is not
      have ho : ¬ p.IsOpenComment := fun ho => by
        obtain rfl := hf.eq_nil_of_isOpenComment ho
        have hnil : ps ++ [.gap ('/' :: '*' :: body)] = [] := ht.eq_split
        simp at hnil
      rw [List.append_assoc]
      exact .cons (hf.before_newline ho hp []) (ih ht hps)

theorem split_append_newline {cs : List Char} (hu : ∀ p ∈ split cs, ∀ t, p ≠ .unclosed t) :
    ∃ ps gs gs', split cs = ps ++ gs ∧ split (cs ++ ['\n']) = ps ++ gs' ∧
      ∀ p ∈ gs ++ gs', ∃ t, p = .gap t := by
  by_cases hc : EndsInComment cs
  · obtain ⟨ps, body, ht, hn⟩ := hc
    have hsplit := ht.eq_split
    have ht' := ht.concat_newline hn fun p hp => hu p (hsplit ▸ List.mem_append_left _ hp)
    exact ⟨ps, _, _, hsplit.symm, ht'.eq_split.symm, by simp⟩
  · have ht' := (tiling_split cs).append_newline hc hu .nil
    exact ⟨split cs, [], _, (List.append_nil _).symm, ht'.eq_split.symm, by simp⟩

theorem collect_gaps {α : Type} {f : Nat → Piece → Option α} (hf : ∀ line t, f line (.gap t) = none)
    (line : Nat) {gs : List Piece} (h : ∀ p ∈ gs, ∃ t, p = .gap t) :
    ((numbered line gs).filterMap fun (n, p) => f n p) = [] := by
  induction gs generalizing line with
  | nil => rfl
  | cons g gs ih =>
    obtain ⟨⟨t, rfl⟩, hgs⟩ := List.forall_mem_cons.1 h
    simp only [numbered, List.filterMap_cons, hf, ih _ hgs]

theorem collect_concat_newline {α : Type} {f : Nat → Piece → Option α} {cs : List Char}
    (hf : ∀ line t, f line (.gap t) = none) (hu : ∀ p ∈ split cs, ∀ t, p ≠ .unclosed t) :
    ((numbered 1 (split (cs ++ ['\n']))).filterMap fun (n, p) => f n p) =
      (numbered 1 (split cs)).filterMap fun (n, p) => f n p := by
  obtain ⟨ps, gs, gs', hsplit, hsplit', hgaps⟩ := split_append_newline hu
  have hgs := fun line => collect_gaps hf line fun p hp => hgaps p (List.mem_append_left gs' hp)
  have hgs' := fun line => collect_gaps hf line fun p hp => hgaps p (List.mem_append_right gs hp)
  rw [hsplit, hsplit', numbered_append, numbered_append, List.filterMap_append, List.filterMap_append,
    hgs, hgs']

end Piece

open Piece

theorem scan_concat_newline {s : String} (hs : (scan s).errors = []) :
    ∃ ts stop stop', (scan s).tokens = ts ++ [stop] ∧ (scan (s ++ "\n")).tokens = ts ++ [stop'] ∧
      stop.kind = .eof ∧ stop'.kind = .eof ∧ (scan (s ++ "\n")).errors = [] := by
  have hchars : (s ++ "\n").toList = s.toList ++ ['\n'] := by simp
  have hu := not_unclosed_of_errors_eq_nil hs
  have htokens := collect_concat_newline (f := fun n p => p.token? n) (fun _ _ => rfl) hu
  have herrors := collect_concat_newline (f := fun n p => p.error? n) (fun _ _ => rfl) hu
  refine ⟨_, _, ⟨.eof, "", .nil, lineBehind 1 (split (s.toList ++ ['\n']))⟩, rfl, ?_, rfl, rfl, ?_⟩
  · simp only [scan, hchars, htokens]
  · simp only [scan, hchars, herrors]
    exact hs

end Lox
