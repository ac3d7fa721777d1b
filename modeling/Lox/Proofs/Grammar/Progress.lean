import Lox.Proofs.Grammar.Acceptance
import Lox.Proofs.Grammar.Passage
import Lox.Proofs.Grammar.TrackingRules

namespace Lox

namespace Grammar

open Walk

/-- Turns one behind the other up to `last`. Each passes a token, and the one that it blames stands
in front of where it stops, or there if that is the end. -/
inductive Consecutive (last : Nat) : Nat → List Turn → Prop
  | nil : Consecutive last last []
  | cons {turn : Turn} {turns : List Turn} (hp : turn.start < turn.stop)
      (hb : ∀ place ∈ turn.blamed?, turn.start ≤ place ∧
        (place < turn.stop ∨ place = last ∧ turn.stop = last))
      (ht : Consecutive last turn.stop turns) : Consecutive last turn.start (turn :: turns)

namespace Consecutive

variable {last i : Nat} {turns : List Turn}

theorem add_length_le (h : Consecutive last i turns) : i + turns.length ≤ last := by
  induction h with
  | nil => exact Nat.le_refl _
  | cons hp _ _ ih =>
    rw [List.length_cons]
    omega

theorem eq_nil (h : Consecutive last last turns) : turns = [] := by
  have hl := h.add_length_le
  exact List.eq_nil_of_length_eq_zero (by omega)

theorem le_blamed (h : Consecutive last i turns) :
    ∀ place ∈ turns.filterMap Turn.blamed?, i ≤ place := by
  induction h with
  | nil => exact nofun
  | @cons turn turns hp hb _ ih =>
    intro place hplace
    obtain ⟨other, ho, hbo⟩ := List.mem_filterMap.1 hplace
    obtain rfl | ho := List.mem_cons.1 ho
    · exact (hb place hbo).1
    · exact Nat.le_trans (Nat.le_of_lt hp) (ih place (List.mem_filterMap.2 ⟨other, ho, hbo⟩))

theorem pairwise_blamed (h : Consecutive last i turns) :
    (turns.filterMap Turn.blamed?).Pairwise (· < ·) := by
  induction h with
  | nil => exact .nil
  | @cons turn turns _ hb ht ih =>
    cases hturn : turn.blamed? with
    | none => rwa [List.filterMap_cons_none hturn]
    | some place =>
      rw [List.filterMap_cons_some hturn]
      refine List.pairwise_cons.2 ⟨fun other ho => ?_, ih⟩
      obtain ⟨-, hlt | ⟨-, hstop⟩⟩ := hb place hturn
      · exact Nat.lt_of_lt_of_le hlt (ht.le_blamed other ho)
      · -- behind an error at the end there is no further turn
        rw [hstop] at ht
        rw [ht.eq_nil] at ho
        cases ho

end Consecutive

theorem length_statements_add_errors (results : List (Except SyntaxError Stmt)) :
    (results.filterMap Except.toOption).length + (results.filterMap error?).length = results.length := by
  induction results with
  | nil => rfl
  | cons r results ih =>
    cases r with
    | ok s =>
      simp only [List.filterMap_cons, Except.toOption, error?, List.length_cons]
      omega
    | error e =>
      simp only [List.filterMap_cons, Except.toOption, error?, List.length_cons]
      omega

def oneTurn (stop : Token) (n : Nat) (ts : List Token) : Except SyntaxError Stmt × List Token :=
  match item (expression n) (statement (n + 1)) ts with
  | .ok s rest => (.ok s, rest)
  | .fail fault rest => (.error (fault.toError stop rest), recover rest)

theorem program_eq_oneTurn {stop : Token} {n : Nat} {ts : List Token} (h : ts ≠ []) :
    program stop (n + 1) ts = (oneTurn stop n ts).1 :: program stop n (oneTurn stop n ts).2 := by
  cases ts with
  | nil => exact absurd rfl h
  | cons t ts =>
    rw [program, oneTurn]
    cases item (expression n) (statement (n + 1)) (t :: ts) <;> rfl

namespace Tape

variable {tape : Tape} {n : Nat}

theorem recoverFrom_succ {i m : Nat} (hi : i + 1 < tape.body.length) :
    recoverFrom (m + 1) tape.tokens (i + 1) =
      if tape.body[i].kind = .semicolon ∨ startsStatement tape.body[i + 1].kind = true then
        .done () (i + 1)
      else recoverFrom m tape.tokens (i + 2) := by
  by_cases hs : tape.body[i].kind = .semicolon
  · simp [recoverFrom, bind_walk, pure_walk, atEnd_of_lt hi, previous_of_lt (Nat.lt_of_succ_lt hi), hs]
  · by_cases hk : startsStatement tape.body[i + 1].kind = true <;>
      simp [recoverFrom, bind_walk, pure_walk, atEnd_of_lt hi, previous_of_lt (Nat.lt_of_succ_lt hi), hs,
        current_of_lt hi, hk, advance_of_lt hi]

theorem recover_cons_cons (t u : Token) (us : List Token) :
    recover (t :: u :: us) =
      if t.kind = .semicolon ∨ startsStatement u.kind = true then u :: us else recover (u :: us) := by
  by_cases hs : t.kind = .semicolon <;> by_cases hk : startsStatement u.kind = true <;>
    simp [recover, hs, hk]

theorem recoverFrom_eq {i m : Nat} (hi : i < tape.body.length) (hm : tape.body.length ≤ i + m) :
    ∃ j, i < j ∧ j ≤ tape.body.length ∧ recoverFrom m tape.tokens (i + 1) = .done () j ∧
      recover (tape.body.drop i) = tape.body.drop j := by
  induction m generalizing i with
  | zero => omega
  | succ m ih =>
    have hd : tape.body.drop i = tape.body[i] :: tape.body.drop (i + 1) := List.drop_eq_getElem_cons hi
    obtain ⟨h, hd'⟩ | ⟨hend, hd'⟩ := lt_or_eq_of_le (Nat.succ_le_of_lt hi)
    · rw [recoverFrom_succ h, hd, hd', recover_cons_cons, ← hd']
      split
      · exact ⟨i + 1, Nat.lt_succ_self i, hi, rfl, rfl⟩
      · obtain ⟨j, hj, hjl, hrec⟩ := ih h (by omega)
        exact ⟨j, Nat.lt_of_succ_lt hj, hjl, hrec⟩
    · refine ⟨i + 1, Nat.lt_succ_self i, hi, ?_, ?_⟩
      · have hend' : i + 1 = tape.body.length := hend
        rw [hend']
        simp [recoverFrom, bind_walk, pure_walk, atEnd_end]
      · rw [hd, hd', recover]
        split <;> rfl

/-- At the end of the tokens the one before the cursor is looked at, which is there because a turn
has passed one. -/
theorem recover_eq {i : Nat} (hi : i ≤ tape.body.length) (hpos : 0 < tape.body.length)
    (hn : tape.body.length < n) :
    ∃ j, i ≤ j ∧ (i < j ∨ i = tape.body.length) ∧ j ≤ tape.body.length ∧
      Walk.recover n tape.tokens i = .done () j ∧ recover (tape.body.drop i) = tape.body.drop j := by
  obtain ⟨h, -⟩ | ⟨rfl, hd⟩ := lt_or_eq_of_le hi
  · obtain ⟨j, hj, hjl, hw, hr⟩ := recoverFrom_eq (m := n) h (by omega)
    refine ⟨j, Nat.le_of_lt hj, .inl hj, hjl, ?_, hr⟩
    simp only [Walk.recover, bind_walk, advance_of_lt h, hw]
  · refine ⟨tape.body.length, Nat.le_refl _, .inr rfl, Nat.le_refl _, ?_, by rw [hd]; rfl⟩
    obtain ⟨n, rfl⟩ : ∃ n', n = n' + 1 := ⟨n - 1, by omega⟩
    obtain ⟨l, hl⟩ : ∃ l, tape.body.length = l + 1 := ⟨tape.body.length - 1, by omega⟩
    have hprev : previous tape.tokens tape.body.length = .done tape.body[l] tape.body.length := by
      have h : previous tape.tokens (l + 1) = .done tape.body[l] (l + 1) := previous_of_lt (by omega)
      rwa [← hl] at h
    simp [Walk.recover, recoverFrom, advance, bind_walk, pure_walk, atEnd_end, hprev]

/-- A turn from `i` on: it stops further on and blames, if any, a token from `i` on that is not left
for the next. -/
structure Proceeds (tape : Tape) (i : Nat) (turn : Turn) : Prop where
  start_eq : turn.start = i
  passes : i < turn.stop
  stop_le : turn.stop ≤ tape.body.length
  blamed : ∀ place ∈ turn.blamed?,
    i ≤ place ∧ (place < turn.stop ∨ place = tape.body.length ∧ turn.stop = tape.body.length)
  token : ∀ place e, turn.result = .error (place, e) → tape.tokens[place]? = some e.token

theorem proceeds_ok {i j : Nat} {s : Stmt} (h : i < j) (hj : j ≤ tape.body.length) :
    tape.Proceeds i ⟨i, .ok s, j⟩ where
  start_eq := rfl
  passes := h
  stop_le := hj
  blamed := fun _ hb => absurd hb (Option.not_mem_none _)
  token := fun _ _ hr => by cases hr

theorem proceeds_error {i j place : Nat} {e : SyntaxError} (h : i < j) (hj : j ≤ tape.body.length)
    (hi : i ≤ place) (hp : place < j ∨ place = tape.body.length ∧ j = tape.body.length)
    (ht : tape.tokens[place]? = some e.token) :
    tape.Proceeds i ⟨i, .error (place, e), j⟩ where
  start_eq := rfl
  passes := h
  stop_le := hj
  blamed := fun other hb => by
    obtain rfl : place = other := Option.some.inj hb
    exact ⟨hi, hp⟩
  token := fun _ _ hr => by
    cases hr
    exact ht

theorem turn_eq {i k : Nat} (hi : i < tape.body.length) (hk : tape.body.length < i + (k + 2))
    (hn : tape.body.length < n) (hkn : k + 1 < n) :
    ∃ turn, Walk.turn n tape.tokens i = .done turn turn.stop ∧ tape.Proceeds i turn ∧
      oneTurn tape.stop k (tape.body.drop i) = (turn.outcome, tape.body.drop turn.stop) := by
  have hitem : tape.Tracks (k + 2) (Walk.item (Walk.expression n) (Walk.statement n))
      (item (expression k) (statement (k + 1))) :=
        tracks_item (tracks_expression (by omega)) (tracks_statement hkn)
  have h := hitem i (Nat.le_of_lt hi) (by omega)
  have hpass : ∀ s rest, item (expression k) (statement (k + 1)) (tape.body.drop i) = .ok s rest →
      rest.length < (tape.body.drop i).length := fun _ _ => length_lt_of_item
  simp only [Walk.turn, attempt, position, bind_walk, oneTurn]
  generalize item (expression k) (statement (k + 1)) (tape.body.drop i) = r,
    Walk.item (Walk.expression n) (Walk.statement n) tape.tokens i = o at h hpass
  cases h with
  | @ok s j hs hj =>
    have hl := hpass s _ rfl
    rw [List.length_drop, List.length_drop] at hl
    exact ⟨⟨i, .ok s, j⟩, rfl, proceeds_ok (by omega) hj, rfl⟩
  | @fail fault place j hs hpj hj ht =>
    obtain ⟨stop, hle, hlt, hstop, hw, hr⟩ := recover_eq hj (Nat.zero_lt_of_lt hi) hn
    refine ⟨⟨i, .error (place, fault.toError tape.stop (tape.body.drop j)), stop⟩, ?_, ?_, ?_⟩
    · simp only [bind_walk, hw, pure_walk, position]
    · exact proceeds_error (by omega) hstop hs (by omega) ht
    · simp only [hr]
      rfl

theorem turn_of_oneTurn {k : Nat} {r : Except SyntaxError Stmt} {rest : List Token}
    (hl : tape.body.length = k + 1) (hn : tape.body.length < n)
    (h : oneTurn tape.stop k tape.body = (r, rest)) :
    ∃ turn, Walk.turn n tape.tokens 0 = .done turn turn.stop ∧ turn.outcome = r ∧
      turn.stop + rest.length = tape.body.length := by
  obtain ⟨turn, hw, hturn, hone⟩ := tape.turn_eq (i := 0) (k := k) (by omega) (by omega) hn (by omega)
  rw [List.drop_zero, h] at hone
  obtain ⟨houtcome, hrest⟩ := Prod.mk.inj hone
  refine ⟨turn, hw, houtcome.symm, ?_⟩
  have hstop := hturn.stop_le
  rw [hrest, List.length_drop]
  omega

theorem turns_eq {i k m : Nat} (hi : i ≤ tape.body.length) (hk : tape.body.length ≤ i + k) (hkn : k < n)
    (hn : tape.body.length < n) (hm : tape.body.length < i + m) :
    ∃ turns, Walk.turns n m tape.tokens i = .done turns tape.body.length ∧
      Consecutive tape.body.length i turns ∧
      (∀ turn ∈ turns, ∀ place e, turn.result = .error (place, e) → tape.tokens[place]? = some e.token) ∧
      program tape.stop k (tape.body.drop i) = turns.map Turn.outcome := by
  induction m generalizing i k with
  | zero => omega
  | succ m ih =>
    obtain ⟨h, -⟩ | ⟨rfl, hd⟩ := lt_or_eq_of_le hi
    · obtain ⟨k, rfl⟩ : ∃ k', k = k' + 1 := ⟨k - 1, by omega⟩
      obtain ⟨turn, hw, hturn, hone⟩ := turn_eq (k := k) h (by omega) hn hkn
      have hpass := hturn.passes
      obtain ⟨turns, hws, hc, htokens, hps⟩ :=
        ih (i := turn.stop) (k := k) hturn.stop_le (by omega) (by omega) (by omega)
      refine ⟨turn :: turns, ?_, ?_, ?_, ?_⟩
      · simp only [Walk.turns, bind_walk, pure_walk, atEnd_of_lt h, hw, hws, Bool.false_eq_true,
          if_false]
      · obtain rfl := hturn.start_eq
        exact .cons hpass hturn.blamed hc
      · exact List.forall_mem_cons.2 ⟨hturn.token, htokens⟩
      · have hne : tape.body.drop i ≠ [] := fun he => by simp only [List.drop_eq_nil_iff] at he; omega
        rw [program_eq_oneTurn hne, hone, hps, List.map_cons]
    · refine ⟨[], ?_, .nil, List.forall_mem_nil _, ?_⟩
      · simp [Walk.turns, bind_walk, pure_walk, atEnd_end]
      · rw [hd]
        cases k <;> rfl

theorem kind_body {tape : Tape} {t : Token} (ht : t ∈ tape.body) : t.kind ≠ .eof := by
  simpa [Token.isEof] using tape.isEof_body t ht

theorem kind_stop {tape : Tape} : tape.stop.kind = .eof := by
  simpa [Token.isEof] using tape.isEof_stop

theorem parse_tokens (tape : Tape) : parse tape.tokens =
    ⟨(program tape.stop tape.body.length tape.body).filterMap Except.toOption,
      (program tape.stop tape.body.length tape.body).filterMap error?⟩ := by
  apply parse_append_stop
  · exact fun t ht => kind_body ht
  · exact kind_stop

end Tape

theorem exists_tape {tokens : List Token} (h : ∃ t ∈ tokens, t.kind = .eof) :
    ∃ tape : Tape, tape.tokens = tokens := by
  obtain ⟨body, stop, after, rfl, hb, hs⟩ := exists_stop h
  have hbody : ∀ t ∈ body, t.isEof = false := fun t ht => by simpa [Token.isEof] using hb t ht
  have hstop : stop.isEof = true := by simp [Token.isEof, hs]
  exact ⟨⟨body, stop, after, hbody, hstop⟩, rfl⟩

theorem program_eq_of_length_le {stop : Token} {ts : List Token} {k l : Nat}
    (ht : ∀ t ∈ ts, t.kind ≠ .eof) (hs : stop.kind = .eof) (hk : ts.length ≤ k) (hl : ts.length ≤ l) :
    program stop k ts = program stop l ts := by
  let tape : Tape :=
    ⟨ts, stop, [], fun t h => by simpa [Token.isEof] using ht t h, by simp [Token.isEof, hs]⟩
  have hwalk : ∀ k', ts.length ≤ k' → k' ≤ k + l → ∃ turns : List Turn,
      Walk.turns (k + l + 1) (k + l + 1) tape.tokens 0 = .done turns ts.length ∧
        program stop k' ts = turns.map Turn.outcome := by
    intro k' hk' hkl
    obtain ⟨turns, hw, -, -, hp⟩ :=
      tape.turns_eq (i := 0) (k := k') (n := k + l + 1) (m := k + l + 1) (Nat.zero_le _)
      (by simpa [tape] using hk') (by omega) (by simp only [tape]; omega) (by simp only [tape]; omega)
    exact ⟨turns, hw, hp⟩
  obtain ⟨turns, hw, hp⟩ := hwalk k hk (by omega)
  obtain ⟨turns', hw', hp'⟩ := hwalk l hl (by omega)
  rw [hw] at hw'
  cases hw'
  rw [hp, hp']

end Grammar

open Grammar Grammar.Walk

/-- Parsing comes to an end, whatever the tokens are, if one of them is an end mark. It has then
looked at no token but those up to the first end mark, nor has the cursor gone behind that, for such
a walk is astray. -/
theorem parse_proceeds {tokens : List Token} {n : Nat} (h : ∃ t ∈ tokens, t.kind = .eof)
    (hn : endMark tokens < n) :
    ∃ turns : List Turn, Walk.program n tokens 0 = .done turns (endMark tokens) ∧
      (parse tokens).statements = turns.filterMap (fun turn => turn.outcome.toOption) ∧
      (parse tokens).errors = turns.filterMap (fun turn => error? turn.outcome) ∧
      Consecutive (endMark tokens) 0 turns ∧
      (∀ turn ∈ turns, ∀ place e, turn.result = .error (place, e) → tokens[place]? = some e.token) ∧
      (turns.filterMap Turn.blamed?).Pairwise (· < ·) ∧
      (parse tokens).statements.length + (parse tokens).errors.length ≤ endMark tokens ∧
      ∀ others, parse (tokens.take (endMark tokens + 1) ++ others) = parse tokens := by
  obtain ⟨tape, rfl⟩ := exists_tape h
  rw [Tape.endMark_tokens] at hn ⊢
  obtain ⟨turns, hw, hc, ht, hp⟩ :=
    tape.turns_eq (i := 0) (k := tape.body.length) (m := n) (Nat.zero_le _)
    (by omega) hn hn (by omega)
  rw [List.drop_zero] at hp
  refine ⟨turns, hw, ?_, ?_, hc, ht, hc.pairwise_blamed, ?_, fun others => ?_⟩
  · rw [tape.parse_tokens, hp]
    exact List.filterMap_map
  · rw [tape.parse_tokens, hp]
    exact List.filterMap_map
  · rw [tape.parse_tokens]
    simp only
    rw [length_statements_add_errors, hp, List.length_map]
    have hl := hc.add_length_le
    omega
  · have htake : tape.tokens.take (tape.body.length + 1) ++ others =
        (Tape.mk tape.body tape.stop others tape.isEof_body tape.isEof_stop).tokens := by
      simp [Tape.tokens, List.take_append, List.take_of_length_le]
    rw [htake, Tape.parse_tokens, Tape.parse_tokens]

/-- In `1 = 2; print; x;` two turns of three end in an error. The first one blames the equals sign,
with its cursor at the semicolon, and the second one a semicolon. -/
theorem parse_proceeds_mistakes :
    let tokens :=
      [.number, .equal, .number, .semicolon, .kwPrint, .semicolon, .identifier, .semicolon, .eof,
      .identifier].map bare
    (∃ t ∈ tokens, t.kind = .eof) ∧ endMark tokens < 9 ∧
      ∃ turns, Walk.program 9 tokens 0 = .done turns 8 ∧ Consecutive 8 0 turns ∧
        turns.map (fun turn => (turn.start, turn.stop)) = [(0, 4), (4, 6), (6, 8)] ∧
        turns.filterMap Turn.blamed? = [1, 5] ∧ ([1, 5] : List Nat).Pairwise (· < ·) ∧
        (parse tokens).statements.length + (parse tokens).errors.length ≤ 8 ∧
        ∀ others, parse (tokens.take 9 ++ others) = parse tokens := by
  intro tokens
  have h : ∃ t ∈ tokens, t.kind = .eof := by decide
  have hn : endMark tokens < 9 := by decide
  have he : endMark tokens = 8 := by decide
  obtain ⟨turns, hw, -, -, hc, -, hb, hl, ho⟩ := parse_proceeds h hn
  rw [he] at hw hc hl ho
  have hseen : (match Walk.program 9 tokens 0 with
      | .done turns _ => (turns.map fun turn => (turn.start, turn.stop), turns.filterMap Turn.blamed?)
      | _ => ([], [])) = ([(0, 4), (4, 6), (6, 8)], [1, 5]) := by decide +kernel
  rw [hw] at hseen
  obtain ⟨hplaces, hblamed⟩ := Prod.mk.inj hseen
  rw [hblamed] at hb
  exact ⟨h, hn, turns, hw, hc, hplaces, hblamed, hb, hl, ho⟩

end Lox
