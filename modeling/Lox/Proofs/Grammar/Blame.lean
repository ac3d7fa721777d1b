import Lox.Proofs.Grammar.Acceptance
import Lox.Proofs.Grammar.PromptRules
import Lox.Proofs.Grammar.Relocation

namespace Lox

namespace Grammar

variable {stop : Token} {n : Nat} {ts : List Token}

theorem prompt_item_program (n : Nat) :
    Prompt (n + 1) (item (expression n) (statement (n + 1))) (fun i : Nat => i + 1)
    (fun i => item (expression i) (statement (i + 1))) IsItem [] :=
  prompt_item (prompt_expression n) ((prompt_statement (n + 1)).reindex (Nat.le_refl _) fun i =>
    ⟨i + 1, Nat.le_refl _, rfl⟩) (Nat.le_refl _) fun _ => Nat.le_refl _

theorem program_of_ok {s : Stmt} {rest : List Token} (hts : ts ≠ [])
    (h : item (expression n) (statement (n + 1)) ts = .ok s rest) :
    program stop (n + 1) ts = .ok s :: program stop n rest := by
  cases ts with
  | nil => exact absurd rfl hts
  | cons t ts => simp only [program, h]

theorem program_of_ne_ok (hts : ts ≠ [])
    (h : ∀ s rest, item (expression n) (statement (n + 1)) ts ≠ .ok s rest) :
    ∃ e, .error e ∈ program stop (n + 1) ts := by
  cases ts with
  | nil => exact absurd rfl hts
  | cons t ts =>
    simp only [program]
    cases hr : item (expression n) (statement (n + 1)) (t :: ts) with
    | ok s rest => exact absurd hr (h s rest)
    | fail fault rest => exact ⟨_, List.mem_cons_self⟩

/-- The error blames what stands behind `w`, before the tokens `x`: with the next token of its kind
there is an error whatever follows, but what was read before it can be completed. -/
structure Blames (stop : Token) (e : SyntaxError) (w x : List Token) : Prop where
  token : e.token = x.headD stop
  wrong : ∀ m y, (w ++ y).length ≤ m → SameNext x y → ∃ e', .error e' ∈ program stop m (w ++ y)
  right : Assignable w → ∃ u ss, ReadsPhrase (w ++ u) (.items ss)

section Blames

variable {v w x rest : List Token} {s : Stmt} {e : SyntaxError}

theorem Blames.after (h : Blames stop e w x) (hv : IsItem v s)
    (hq : ∀ m y, (v ++ y).length ≤ m + 1 → SameNext (w ++ x) y →
      item (expression m) (statement (m + 1)) (v ++ y) = .ok s y) : Blames stop e (v ++ w) x := by
  obtain ⟨s', hs⟩ := hv
  refine ⟨h.token, fun m y hm hy => ?_, fun ha => ?_⟩
  · have hpos := List.length_pos_iff.2 hs.ne_nil
    rw [List.append_assoc] at hm ⊢
    rw [List.length_append] at hm
    obtain ⟨m, rfl⟩ : ∃ m', m = m' + 1 := ⟨m - 1, by omega⟩
    have hne : v ++ (w ++ y) ≠ [] := fun hn => hs.ne_nil (List.append_eq_nil_iff.1 hn).1
    rw [program_of_ok hne (hq m (w ++ y) (by rwa [List.length_append]) (hy.append w))]
    obtain ⟨e', he'⟩ := h.wrong m y (by omega) hy
    exact ⟨e', List.mem_cons_of_mem _ he'⟩
  · obtain ⟨u, ss, hss⟩ := h.right ha.of_append
    exact ⟨u, s' :: ss, by simpa using hs.append hss⟩

theorem blames_of_fail {fault : Fault} (hne : w ++ x ≠ [])
    (hx : (fault.toError stop rest).token = x.headD stop)
    (hq : ∀ m y, (w ++ y).length ≤ m + 1 → SameNext x y →
      ∀ s r, item (expression m) (statement (m + 1)) (w ++ y) ≠ .ok s r)
    (hc : Assignable w → ∃ u s, IsItem (w ++ u) s) : Blames stop (fault.toError stop rest) w x := by
  refine ⟨hx, fun m y hm hy => ?_, fun ha => ?_⟩
  · have hy' : w ++ y ≠ [] := fun hn => by
      have hsame := hy.append w
      rw [hn] at hsame
      exact hne (SameNext.eq_nil hsame.symm)
    have hpos := List.length_pos_iff.2 hy'
    obtain ⟨m, rfl⟩ : ∃ m', m = m' + 1 := ⟨m - 1, by omega⟩
    exact program_of_ne_ok hy' (hq m y hm hy)
  · obtain ⟨u, _, s, hs⟩ := hc ha
    exact ⟨u, [s], hs⟩

end Blames

theorem program_blames {e : SyntaxError} (hn : ts.length ≤ n)
    (he : ((program stop n ts).filterMap error?).head? = some e) :
    ∃ w x, ts = w ++ x ∧ Blames stop e w x := by
  induction n generalizing ts with
  | zero =>
    rw [List.length_eq_zero_iff.1 (Nat.le_zero.1 hn)] at he
    cases he
  | succ n ih =>
    cases ts with
    | nil => cases he
    | cons t ts =>
      have hi := (prompt_item_program n).run (t :: ts) hn
      simp only [program] at he
      generalize hr : item (expression n) (statement (n + 1)) (t :: ts) = r at hi he
      cases hi with
      | @ok v rest s hts hv hq =>
        have hpos : 0 < v.length := by
          obtain ⟨_, hs⟩ := hv
          exact List.length_pos_iff.2 hs.ne_nil
        have hl := congrArg List.length hts
        rw [List.length_append] at hl
        obtain ⟨w, x, rfl, hb⟩ := ih (by omega) he
        exact ⟨v ++ w, x, by rw [hts, List.append_assoc], hb.after hv hq⟩
      | @fail w x rest fault hts hx hq hc =>
        cases he
        exact ⟨w, x, hts, blames_of_fail (hts ▸ List.cons_ne_nil t ts) (hx stop) hq hc⟩

theorem ReadsPhrase.of_map_kind {w w' : List Token} {ss : List Stmt} (h : ReadsPhrase w (.items ss))
    (hk : w'.map Token.kind = w.map Token.kind) : ∃ ss', ReadsPhrase w' (.items ss') :=
  readsItems_of_holds (Derives.holds (fun _ _ => readable_of_production) h.derives hk)

theorem Reads.relocate {l : Level} {w : List Token} {e : Expr} (h : Reads l w e) (place : Int → Int) :
    Reads l (w.map (Token.relocate place)) (e.relocate place) := by
  induction h with
  | literal h => exact .literal h
  | name h => exact .name h
  | @grouping opening closing w e ho _ hc ih =>
    have hg :
        Reads .primary
          (opening.relocate place :: w.map (Token.relocate place) ++ [closing.relocate place])
          (.grouping (e.relocate place)) := .grouping ho ih hc
    rw [List.map_append, List.map_cons, List.map_singleton]
    exact hg
  | unary ho _ ih => exact .unary ho ih
  | assign ht hq _ ih => exact .assign ht hq ih
  | @operation l op v w a b hl _ ho _ iha ihb =>
    have hc :
        (l.combine a op b).relocate place =
          l.combine (a.relocate place) (op.relocate place) (b.relocate place) := by
      cases l <;> rfl
    rw [List.map_append, List.map_cons, hc]
    exact .operation hl iha ho ihb
  | tighter _ ih => exact .tighter ih

theorem Reads.eq_name {l : Level} {t : Token} {e : Expr} (h : Reads l [t] e)
    (ht : t.kind = .identifier) :
    e = .name t := by
  generalize hw : [t] = w at h
  induction h with
  | literal h =>
    cases hw
    simp [literal?, ht] at h
  | name => cases hw; rfl
  | grouping => simp at hw
  | unary _ h =>
    have hl := congrArg List.length hw
    have := h.length_pos
    simp only [List.length_cons, List.length_nil] at hl
    omega
  | assign => simp at hw
  | operation _ ha _ _ _ _ =>
    have hl := congrArg List.length hw
    have := ha.length_pos
    simp only [List.length_append, List.length_cons, List.length_nil] at hl
    omega
  | tighter _ ih => exact ih hw

/-- The left operand of an equals sign behind these tokens is a single identifier: no longer
expression ends there. -/
def EndsInName (before : List Token) : Prop :=
  ∃ name, name.kind = .identifier ∧ [name] <:+ before ∧ ∀ v e, v <:+ before → Reads .disjunction v e →
    v = [name]

theorem not_reads_of_error {e : SyntaxError} (h : .error e ∈ program stop ts.length ts)
    {ss : List Stmt} :
    ¬ ReadsPhrase ts (.items ss) := by
  intro hr
  rw [hr.program_eq] at h
  simp at h

theorem takeWhile_of_take_eq {w x others : List Token} (hk : ∀ t ∈ w ++ x, t.kind ≠ .eof)
    (h : (others.map Token.kind).take (w.length + 1) =
      ((w ++ x).map Token.kind ++ [Kind.eof]).take (w.length + 1)) :
    ∃ v y, others.takeWhile (fun t => !t.isEof) = v ++ y ∧ v.map Token.kind = w.map Token.kind ∧
      SameNext x y := by
  induction w generalizing others with
  | nil =>
    cases others with
    | nil => cases x <;> simp at h
    | cons o os =>
      refine ⟨[], (o :: os).takeWhile fun t => !t.isEof, rfl, rfl, ?_⟩
      cases x with
      | nil =>
        have ho : o.kind = .eof := by simpa using h
        simp [SameNext, Token.isEof, ho]
      | cons t x =>
        have ho : o.kind = t.kind := by simpa using h
        have hne : o.kind ≠ .eof := ho ▸ hk t (by simp)
        rw [List.takeWhile_cons_of_pos (by simpa [Token.isEof] using hne)]
        exact congrArg some ho.symm
  | cons t w ih =>
    cases others with
    | nil => simp at h
    | cons o os =>
      simp only [List.map_cons, List.cons_append, List.length_cons, List.take_succ_cons,
        List.cons.injEq] at h
      obtain ⟨v, y, hvy, hv, hy⟩ := ih (fun u hu => hk u (List.mem_cons_of_mem _ hu)) h.2
      have ho : o.kind ≠ .eof := h.1 ▸ hk t List.mem_cons_self
      refine ⟨o :: v, y, ?_, by rw [List.map_cons, List.map_cons, h.1, hv], hy⟩
      rw [List.takeWhile_cons_of_pos (by simpa [Token.isEof] using ho), hvy, List.cons_append]

theorem Blames.errors_ne_nil {w x others : List Token} {e : SyntaxError} (hb : Blames stop e w x)
    (hk : ∀ t ∈ w ++ x, t.kind ≠ .eof)
    (h : (others.map Token.kind).take (w.length + 1) =
      ((w ++ x).map Token.kind ++ [Kind.eof]).take (w.length + 1)) :
    (parse others).errors ≠ [] := by
  intro hp
  obtain ⟨v, y, hvy, hv, hy⟩ := takeWhile_of_take_eq hk h
  have hr := reads_of_parse hp
  rw [hvy] at hr
  have hkinds : (w ++ y).map Token.kind = (v ++ y).map Token.kind := by
    rw [List.map_append, List.map_append, hv]
  obtain ⟨ss, hss⟩ := hr.of_map_kind hkinds
  obtain ⟨e, he⟩ := hb.wrong _ y (Nat.le_refl _) hy
  exact not_reads_of_error he hss

end Grammar

/-- Each token with its position for its line. -/
def numbered (tokens : List Token) : List Token := tokens.mapIdx fun i t => { t with line := i }

def firstBlamed? (tokens : List Token) : Option Nat :=
  (parse (numbered tokens)).errors.head?.map fun e => e.token.line.toNat

def lineAt (tokens : List Token) (i : Int) : Int := (tokens[i.toNat]?.map Token.line).getD 0

theorem getElem?_numbered (tokens : List Token) (i : Nat) :
    (numbered tokens)[i]? = tokens[i]?.map fun t => { t with line := i } := List.getElem?_mapIdx

theorem map_kind_numbered (tokens : List Token) :
    (numbered tokens).map Token.kind = tokens.map Token.kind := by
  refine List.ext_getElem? fun i => ?_
  rw [List.getElem?_map, getElem?_numbered, Option.map_map, List.getElem?_map]
  rfl

theorem map_relocate_numbered (tokens : List Token) :
    (numbered tokens).map (Token.relocate (lineAt tokens)) = tokens := by
  refine List.ext_getElem? fun i => ?_
  rw [List.getElem?_map, getElem?_numbered, Option.map_map]
  cases h : tokens[i]? with
  | none => rfl
  | some t => simp [Token.relocate, lineAt, h]

open Grammar

variable {body : List Token} {stop : Token}

theorem numbered_concat (body : List Token) (stop : Token) :
    numbered (body ++ [stop]) = numbered body ++ [{ stop with line := body.length }] :=
  List.mapIdx_concat

theorem parse_numbered (hs : stop.kind = .eof) : parse (body ++ [stop]) =
    (parse (numbered (body ++ [stop]))).relocate (lineAt (body ++ [stop])) := by
  rw [← parse_map ⟨{ stop with line := body.length }, by simp [numbered_concat], hs⟩,
    map_relocate_numbered]

theorem assignable_of_endsInName {w x : List Token}
    (hbody : body = (w ++ x).map (Token.relocate (lineAt (body ++ [stop]))))
    (h : ∀ i < w.length, ∀ t, body[i]? = some t → t.kind = .equal → EndsInName (body.take i)) :
    Assignable w := by
  rintro before equals after rfl hq v e hv hr
  generalize lineAt (body ++ [stop]) = place at hbody
  subst hbody
  have hend := h before.length (by simp) (equals.relocate place) (by simp) hq
  rw [List.append_assoc, List.map_append, List.take_left' (List.length_map _)] at hend
  obtain ⟨name, hname, -, hall⟩ := hend
  have hv' := hall _ _ (hv.map _) (hr.relocate place)
  obtain ⟨t, rfl, rfl⟩ := List.map_eq_singleton_iff.1 hv'
  exact ⟨t, hr.eq_name hname⟩

theorem numbered_blames (hb : ∀ t ∈ body, t.kind ≠ .eof) (hs : stop.kind = .eof)
    (he : (parse (body ++ [stop])).errors ≠ []) :
    ∃ w x e, numbered body = w ++ x ∧ (parse (numbered (body ++ [stop]))).errors.head? = some e ∧
      (numbered (body ++ [stop]))[w.length]? = some e.token ∧
      (∀ others, (others.map Token.kind).take (w.length + 1) =
        ((body ++ [stop]).map Token.kind).take (w.length + 1) →
        (parse others).errors ≠ []) ∧
      (Assignable w → ∃ u ss, ReadsPhrase (w ++ u) (.items ss)) := by
  have hkinds := map_kind_numbered body
  have hbn : ∀ t ∈ numbered body, t.kind ≠ .eof := by
    rw [← List.forall_mem_map (P := (· ≠ Kind.eof)), hkinds, List.forall_mem_map]
    exact hb
  have hprogram :
      (parse (numbered (body ++ [stop]))).errors =
        (program { stop with line := body.length } (numbered body).length
          (numbered body)).filterMap error? := by
    have hmark : ({ stop with line := body.length } : Token).kind = .eof := hs
    rw [numbered_concat, parse_append_stop hbn hmark]
  obtain ⟨e, hhead⟩ : ∃ e, (parse (numbered (body ++ [stop]))).errors.head? = some e := by
    have herrors : (parse (body ++ [stop])).errors =
        (parse (numbered (body ++ [stop]))).errors.map
          (SyntaxError.relocate (lineAt (body ++ [stop]))) :=
      congrArg Parse.errors (parse_numbered hs)
    cases hn : (parse (numbered (body ++ [stop]))).errors with
    | nil => exact absurd (herrors.trans (congrArg (List.map _) hn)) he
    | cons e es => exact ⟨e, rfl⟩
  obtain ⟨w, x, hwx, hblames⟩ := program_blames (Nat.le_refl _) (hprogram ▸ hhead)
  refine ⟨w, x, e, hwx, hhead, ?_, fun others h => ?_, hblames.right⟩
  · rw [numbered_concat, hwx, List.append_assoc, List.getElem?_append_right (Nat.le_refl _),
      Nat.sub_self, hblames.token]
    cases x <;> rfl
  · refine hblames.errors_ne_nil (hwx ▸ hbn) ?_
    rw [h, ← hwx, hkinds, List.map_append, List.map_singleton, hs]

theorem exists_parse_of_start {w w' u : List Token} {ss : List Stmt}
    (hw : w'.map Token.kind = w.map Token.kind) (hs : stop.kind = .eof)
    (hu : ReadsPhrase (w ++ u) (.items ss)) :
    ∃ rest, (∀ t ∈ rest, t.kind ≠ .eof) ∧ (parse (w' ++ rest ++ [stop])).errors = [] := by
  have hkinds : (w' ++ u).map Token.kind = (w ++ u).map Token.kind := by
    rw [List.map_append, List.map_append, hw]
  obtain ⟨ss', hss⟩ := hu.of_map_kind hkinds
  refine ⟨u, fun t ht => hss.kind_ne_eof t (List.mem_append_right _ ht), ?_⟩
  rw [parse_of_reads hss.kind_ne_eof hs hss]

/-- The first error blames a token that no program can have there, whatever follows; and if no
assignment before it has a wrong target, then all before it is the start of a program. -/
theorem parse_blames (hb : ∀ t ∈ body, t.kind ≠ .eof) (hs : stop.kind = .eof)
    (he : (parse (body ++ [stop])).errors ≠ []) :
    ∃ k e, (parse (body ++ [stop])).errors.head? = some e ∧ firstBlamed? (body ++ [stop]) = some k ∧
      (body ++ [stop])[k]? = some e.token ∧
      (∀ others, (others.map Token.kind).take (k + 1) = ((body ++ [stop]).map Token.kind).take (k + 1) →
        (parse others).errors ≠ []) ∧
      ((∀ i < k, ∀ t, body[i]? = some t → t.kind = .equal → EndsInName (body.take i)) →
        ∃ rest, (∀ t ∈ rest, t.kind ≠ .eof) ∧ (parse (body.take k ++ rest ++ [stop])).errors = []) := by
  obtain ⟨w, x, e, hwx, hhead, hget, hwrong, hright⟩ := numbered_blames hb hs he
  have hline : e.token.line = w.length := by
    rw [getElem?_numbered] at hget
    obtain ⟨t, -, ht⟩ := Option.map_eq_some_iff.1 hget
    rw [← ht]
  refine ⟨w.length, e.relocate (lineAt (body ++ [stop])), ?_, ?_, ?_, hwrong, fun hnames => ?_⟩
  · rw [congrArg Parse.errors (parse_numbered hs)]
    exact (List.head?_map ..).trans (congrArg (Option.map _) hhead)
  · simp [firstBlamed?, hhead, hline]
  · have hmap := congrArg (·[w.length]?) (map_relocate_numbered (body ++ [stop]))
    simp only [List.getElem?_map, hget] at hmap
    rw [← hmap]
    simp
  · have hbody : body = (w ++ x).map (Token.relocate (lineAt (body ++ [stop]))) := by
      have hmap := map_relocate_numbered (body ++ [stop])
      rw [numbered_concat, hwx, List.map_append] at hmap
      exact (List.append_inj' hmap rfl).1.symm
    obtain ⟨u, ss, hu⟩ := hright (assignable_of_endsInName hbody hnames)
    refine exists_parse_of_start ?_ hs hu
    rw [List.map_take, ← map_kind_numbered, hwx, ← List.map_take, List.take_left']
    rfl

/-- In `a = (;` the semicolon is to blame: nothing can mend it, but with another token in its place
there is a program that starts so. -/
theorem parse_blames_semicolon :
    let start := [.identifier, .equal, .leftParen].map bare
    let body := start ++ [bare .semicolon]
    (∀ t ∈ body, t.kind ≠ .eof) ∧ (bare .eof).kind = .eof ∧ (parse (body ++ [bare .eof])).errors ≠ [] ∧
      firstBlamed? (body ++ [bare .eof]) = some 3 ∧ (∀ others, (parse (body ++ others)).errors ≠ []) ∧
      (∀ i < 3, ∀ t, body[i]? = some t → t.kind = .equal → EndsInName (body.take i)) ∧
      ∃ rest, (parse (start ++ rest ++ [bare .eof])).errors = [] := by
  intro start body
  have hb : ∀ t ∈ body, t.kind ≠ .eof := by decide
  have he : (parse (body ++ [bare .eof])).errors ≠ [] :=
    fun h => absurd (List.isEmpty_iff.2 h) (by decide +kernel)
  have hk : firstBlamed? (body ++ [bare .eof]) = some 3 := by decide +kernel
  obtain ⟨k, e, -, hk', -, hwrong, hright⟩ := parse_blames hb rfl he
  obtain rfl : k = 3 := Option.some.inj (hk'.symm.trans hk)
  have hnames : ∀ i < 3, ∀ t, body[i]? = some t → t.kind = .equal → EndsInName (body.take i) := by
    intro i hi t ht hq
    obtain rfl : i = 1 := by
      have hkinds : ∀ i < 3, (body[i]?.map Token.kind) = some .equal → i = 1 := by decide
      exact hkinds i hi (by rw [ht]; exact congrArg some hq)
    refine ⟨bare .identifier, rfl, List.suffix_refl _, fun v e hv hr => ?_⟩
    obtain hv | hv := List.suffix_cons_iff.1 hv
    · exact hv
    · exact absurd hr.length_pos (by simp [List.suffix_nil.1 hv])
  obtain ⟨rest, -, hrest⟩ := hright hnames
  exact ⟨hb, rfl, he, hk, fun others => hwrong (body ++ others) rfl, hnames, rest, hrest⟩

end Lox
