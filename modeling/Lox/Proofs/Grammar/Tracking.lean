import Mathlib.Data.List.TakeWhile
import Lox.Proofs.Grammar.Cursor
import Lox.Proofs.Grammar.Dispatch

namespace Lox.Grammar

/-- Tokens with an end mark: what is in front of the first one, that one, and what is never looked
at. -/
structure Tape where
  body : List Token
  stop : Token
  after : List Token
  isEof_body : ∀ t ∈ body, t.isEof = false
  isEof_stop : stop.isEof = true

namespace Tape

def tokens (tape : Tape) : List Token := tape.body ++ tape.stop :: tape.after

/-- The result of the rule on what is left from `start` on and that of the walk from there are the
same. A token that is blamed stands between there and the cursor. -/
inductive Agrees (tape : Tape) {α : Type} (start : Nat) : Result α → Outcome α → Prop
  | ok {a : α} {i : Nat} (hs : start ≤ i) (hi : i ≤ tape.body.length) :
      Agrees tape start (.ok a (tape.body.drop i)) (.done a i)
  | fail {fault : Fault} {place i : Nat} (hs : start ≤ place) (hp : place ≤ i)
      (hi : i ≤ tape.body.length)
      (ht : tape.tokens[place]? = some (fault.toError tape.stop (tape.body.drop i)).token) :
      Agrees tape start (.fail fault (tape.body.drop i))
        (.failed place (fault.toError tape.stop (tape.body.drop i)) i)

/-- The walk is that of the rule from wherever fewer than `n` tokens are left. -/
def Tracks (tape : Tape) {α : Type} (n : Nat) (m : Walk α) (p : Rule α) : Prop :=
  ∀ i ≤ tape.body.length, tape.body.length - i < n →
    tape.Agrees i (p (tape.body.drop i)) (m tape.tokens i)

variable {tape : Tape} {α β : Type} {n i : Nat}

section Primitives

open Walk

theorem bind_walk (m : Walk α) (f : α → Walk β) (tokens : List Token) (i : Nat) :
    (m >>= f) tokens i = match m tokens i with
      | .done a j => f a tokens j
      | .failed place e j => .failed place e j
      | .astray => .astray
      | .unfinished => .unfinished := rfl

theorem pure_walk (a : α) (tokens : List Token) (i : Nat) : (pure a : Walk α) tokens i = .done a i := rfl

theorem endMark_tokens : endMark tape.tokens = tape.body.length := by
  have hb : tape.body.findIdx Token.isEof = tape.body.length :=
    List.findIdx_eq_length.2 fun t ht => by simp [tape.isEof_body t ht]
  simp [endMark, tokens, List.findIdx_append, hb, List.findIdx_cons, tape.isEof_stop]

theorem getElem?_tokens (hi : i < tape.body.length) : tape.tokens[i]? = some tape.body[i] := by
  rw [tokens, List.getElem?_append_left hi, List.getElem?_eq_getElem hi]

theorem getElem?_tokens_end : tape.tokens[tape.body.length]? = some tape.stop := by
  simp [tokens]

theorem look_of_lt {place : Nat} (h : place < tape.body.length) (i : Nat) :
    look place tape.tokens i = .done tape.body[place] i := by
  simp [look, getElem?_tokens h, endMark_tokens, Nat.le_of_lt h]

theorem look_end (i : Nat) : look tape.body.length tape.tokens i = .done tape.stop i := by
  simp [look, getElem?_tokens_end, endMark_tokens]

theorem current_of_lt (h : i < tape.body.length) : current tape.tokens i = .done tape.body[i] i :=
  look_of_lt h i

theorem current_end : current tape.tokens tape.body.length = .done tape.stop tape.body.length :=
  look_end _

theorem previous_of_lt (h : i < tape.body.length) :
    previous tape.tokens (i + 1) = .done tape.body[i] (i + 1) :=
  look_of_lt h (i + 1)

theorem atEnd_of_lt (h : i < tape.body.length) : atEnd tape.tokens i = .done false i := by
  simp [atEnd, bind_walk, pure_walk, current_of_lt h, tape.isEof_body _ (List.getElem_mem h)]

theorem atEnd_end : atEnd tape.tokens tape.body.length = .done true tape.body.length := by
  simp [atEnd, bind_walk, pure_walk, current_end, tape.isEof_stop]

theorem advance_of_lt (h : i < tape.body.length) :
    advance tape.tokens i = .done tape.body[i] (i + 1) := by
  simp [advance, bind_walk, atEnd_of_lt h, step, endMark_tokens, h, previous_of_lt h]

theorem check_of_lt (kind : Kind) (h : i < tape.body.length) :
    check kind tape.tokens i = .done (tape.body[i].kind == kind) i := by
  simp [check, bind_walk, pure_walk, atEnd_of_lt h, current_of_lt h]

theorem check_end (kind : Kind) :
    check kind tape.tokens tape.body.length = .done false tape.body.length := by
  simp [check, bind_walk, pure_walk, atEnd_end]

theorem accept_end (kinds : List Kind) :
    accept kinds tape.tokens tape.body.length = .done false tape.body.length := by
  induction kinds with
  | nil => rfl
  | cons kind kinds ih => simp [accept, bind_walk, check_end, ih]

theorem accept_of_mem {kinds : List Kind} (h : i < tape.body.length) (hk : tape.body[i].kind ∈ kinds) :
    accept kinds tape.tokens i = .done true (i + 1) := by
  induction kinds with
  | nil => cases hk
  | cons kind kinds ih =>
    by_cases he : tape.body[i].kind = kind
    · simp [accept, bind_walk, pure_walk, check_of_lt kind h, he, advance_of_lt h]
    · have hm := (List.mem_cons.1 hk).resolve_left he
      simp [accept, bind_walk, check_of_lt kind h, he, ih hm]

theorem accept_of_notMem {kinds : List Kind} (h : i < tape.body.length)
    (hk : tape.body[i].kind ∉ kinds) :
    accept kinds tape.tokens i = .done false i := by
  induction kinds with
  | nil => rfl
  | cons kind kinds ih =>
    rw [List.mem_cons, not_or] at hk
    simp [accept, bind_walk, check_of_lt kind h, hk.1, ih hk.2]

theorem accept_of_lt (kinds : List Kind) (h : i < tape.body.length) :
    accept kinds tape.tokens i =
      if kinds.contains tape.body[i].kind then .done true (i + 1) else .done false i := by
  by_cases hk : tape.body[i].kind ∈ kinds
  · rw [accept_of_mem h hk, if_pos (List.contains_iff_mem.2 hk)]
  · rw [accept_of_notMem h hk, if_neg (mt List.contains_iff_mem.1 hk)]

end Primitives

theorem lt_or_eq_of_le (hi : i ≤ tape.body.length) :
    (∃ h : i < tape.body.length, tape.body.drop i = tape.body[i] :: tape.body.drop (i + 1)) ∨
      i = tape.body.length ∧ tape.body.drop i = [] := by
  obtain h | rfl := Nat.lt_or_eq_of_le hi
  · exact .inl ⟨h, List.drop_eq_getElem_cons h⟩
  · exact .inr ⟨rfl, List.drop_length⟩

theorem getElem?_tokens_headD (hi : i ≤ tape.body.length) :
    tape.tokens[i]? = some ((tape.body.drop i).headD tape.stop) := by
  obtain ⟨h, hd⟩ | ⟨rfl, hd⟩ := lt_or_eq_of_le hi
  · rw [getElem?_tokens h, hd, List.headD_cons]
  · rw [getElem?_tokens_end, hd, List.headD_nil]

theorem current_of_le (hi : i ≤ tape.body.length) :
    Walk.current tape.tokens i = .done ((tape.body.drop i).headD tape.stop) i := by
  obtain ⟨h, hd⟩ | ⟨rfl, hd⟩ := lt_or_eq_of_le hi
  · rw [current_of_lt h, hd, List.headD_cons]
  · rw [current_end, hd, List.headD_nil]

section Combinators

variable {start : Nat} {r : Result α} {o : Outcome α}

theorem Agrees.mono (h : tape.Agrees i r o) (hs : start ≤ i) : tape.Agrees start r o := by
  cases h with
  | ok hi hl => exact .ok (Nat.le_trans hs hi) hl
  | fail hp hi hl ht => exact .fail (Nat.le_trans hs hp) hi hl ht

theorem agrees_blame {fault : Fault} (hi : i ≤ tape.body.length)
    (hf : (fault.toError tape.stop (tape.body.drop i)).token = (tape.body.drop i).headD tape.stop) :
    tape.Agrees i (.fail fault (tape.body.drop i) : Result α)
      (.failed i (fault.toError tape.stop (tape.body.drop i)) i) :=
  .fail (Nat.le_refl i) (Nat.le_refl i) hi (hf ▸ getElem?_tokens_headD hi)

variable {m : Walk α} {p : Rule α}

theorem Tracks.mono {k : Nat} (h : tape.Tracks n m p) (hk : k ≤ n) : tape.Tracks k m p :=
  fun i hi hn => h i hi (Nat.lt_of_lt_of_le hn hk)

theorem Tracks.behind (h : tape.Tracks n m p) (hi : i < tape.body.length)
    (hn : tape.body.length - i < n + 1) :
    tape.Agrees i (p (tape.body.drop (i + 1))) (m tape.tokens (i + 1)) :=
  (h (i + 1) hi (by omega)).mono (Nat.le_succ i)

theorem tracks_pure (a : α) : tape.Tracks n (pure a) (pure a) := fun i hi _ => .ok (Nat.le_refl i) hi

theorem Agrees.bind {k : Nat} {f : α → Walk β} {g : α → Rule β}
    (h : tape.Agrees i (p (tape.body.drop i)) (m tape.tokens i))
    (hk : ∀ a j, p (tape.body.drop i) = .ok a (tape.body.drop j) → i ≤ j → j ≤ tape.body.length →
      tape.body.length - j < k)
    (hf : ∀ a, tape.Tracks k (f a) (g a)) :
    tape.Agrees i ((p >>= g) (tape.body.drop i)) ((m >>= f) tape.tokens i) := by
  rw [Rule.bind_apply, bind_walk]
  generalize p (tape.body.drop i) = r, m tape.tokens i = o at h hk
  cases h with
  | @ok a j hs hj => exact (hf a j hj (hk a j rfl hs hj)).mono hs
  | fail hs hp hj ht => exact .fail hs hp hj ht

theorem Tracks.bind {f : α → Walk β} {g : α → Rule β} (h : tape.Tracks n m p)
    (hf : ∀ a, tape.Tracks n (f a) (g a)) : tape.Tracks n (m >>= f) (p >>= g) :=
  fun i hi hn => (h i hi hn).bind (fun _ _ _ hj _ => by omega) hf

theorem Tracks.bind_of_passing {k : Nat} {f : α → Walk β} {g : α → Rule β} (h : tape.Tracks n m p)
    (hp : ∀ ts a rest, p ts = .ok a rest → rest.length < ts.length) (hk : n ≤ k + 1)
    (hf : ∀ a, tape.Tracks k (f a) (g a)) : tape.Tracks n (m >>= f) (p >>= g) := by
  refine fun i hi hn => (h i hi hn).bind (fun a j hr _ hj => ?_) hf
  have hl := hp _ _ _ hr
  rw [List.length_drop, List.length_drop] at hl
  omega

theorem Tracks.map (h : tape.Tracks n m p) (g : α → β) :
    tape.Tracks n (m >>= fun a => pure (g a)) (g <$> p) :=
  h.bind fun a => tracks_pure (g a)

theorem tracks_check (kind : Kind) : tape.Tracks n (Walk.check kind) (Rule.nextIs kind) := by
  intro i hi _
  obtain ⟨h, hd⟩ | ⟨rfl, hd⟩ := lt_or_eq_of_le hi
  · rw [check_of_lt kind h, hd, Rule.nextIs, ← hd]
    exact .ok (Nat.le_refl i) hi
  · rw [check_end, hd, Rule.nextIs, ← hd]
    exact .ok (Nat.le_refl _) hi

theorem tracks_expect (kind : Kind) (message : String) :
    tape.Tracks n (Walk.expect kind message) (Rule.expect kind message) := by
  intro i hi _
  have hfail : tape.Agrees i (.fail (.expected kind message) (tape.body.drop i) : Result Token) _ :=
    agrees_blame hi rfl
  obtain ⟨h, hd⟩ | ⟨rfl, hd⟩ := lt_or_eq_of_le hi
  · by_cases hk : tape.body[i].kind = kind
    · have hw : Walk.expect kind message tape.tokens i = .done tape.body[i] (i + 1) := by
        simp [Walk.expect, bind_walk, check_of_lt kind h, hk, advance_of_lt h]
      rw [hd, Rule.expect, if_pos hk, hw]
      exact .ok (Nat.le_succ i) h
    · have hw : Walk.expect kind message tape.tokens i =
          .failed i ((Fault.expected kind message).toError tape.stop (tape.body.drop i)) i := by
        simp [Walk.expect, bind_walk, check_of_lt kind h, hk, Walk.position, current_of_le hi,
          Walk.blame, Fault.toError]
      have hr :
          Rule.expect kind message (tape.body.drop i) =
            .fail (.expected kind message) (tape.body.drop i) := by
        rw [hd, Rule.expect, if_neg hk]
      rwa [hw, hr]
  · have hw : Walk.expect kind message tape.tokens tape.body.length =
        .failed tape.body.length
          ((Fault.expected kind message).toError tape.stop (tape.body.drop tape.body.length))
          tape.body.length := by
      simp [Walk.expect, bind_walk, check_end, Walk.position, current_of_le hi, Walk.blame,
        Fault.toError]
    have hr : Rule.expect kind message (tape.body.drop tape.body.length) =
        .fail (.expected kind message) (tape.body.drop tape.body.length) := by
      rw [hd, Rule.expect]
    rwa [hw, hr]

theorem Tracks.accept {kinds : List Kind} {accepted : Kind → Bool} {f : Bool → Walk β}
    {g : Option Token → Rule β} (hk : ∀ k, accepted k = kinds.contains k)
    (hsome : ∀ i (h : i < tape.body.length), tape.body.length - i < n →
      tape.Agrees i (g (some tape.body[i]) (tape.body.drop (i + 1))) (f true tape.tokens (i + 1)))
    (hnone : tape.Tracks n (f false) (g none)) :
    tape.Tracks n (Walk.accept kinds >>= f) (Rule.accept accepted >>= g) := by
  intro i hi hn
  rw [Rule.bind_apply, bind_walk]
  obtain ⟨h, hd⟩ | ⟨rfl, hd⟩ := lt_or_eq_of_le hi
  · rw [accept_of_lt kinds h, hd, Rule.accept, hk]
    by_cases hc : kinds.contains tape.body[i].kind = true
    · rw [if_pos hc, if_pos hc]
      exact hsome i h hn
    · rw [if_neg hc, if_neg hc, ← hd]
      exact hnone i hi hn
  · rw [accept_end, hd, Rule.accept, ← hd]
    exact hnone _ hi hn

theorem Tracks.accept' {kinds : List Kind} {accepted : Kind → Bool} {f : Bool → Walk β}
    {g : Option Token → Rule β} (hk : ∀ k, accepted k = kinds.contains k)
    (hsome : ∀ t, tape.Tracks n (f true) (g (some t))) (hnone : tape.Tracks n (f false) (g none)) :
    tape.Tracks n (Walk.accept kinds >>= f) (Rule.accept accepted >>= g) :=
  Tracks.accept hk (fun _ hi hn => (hsome _).behind hi (Nat.lt_succ_of_lt hn)) hnone

end Combinators

end Tape

end Lox.Grammar
