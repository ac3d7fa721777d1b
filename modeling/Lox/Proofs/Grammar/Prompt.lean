import Lox.Grammar.Program
import Lox.Proofs.Grammar.Dispatch

namespace Lox.Grammar

open Rule

def SameNext (ts us : List Token) : Prop := ts.head?.map Token.kind = us.head?.map Token.kind

section SameNext

variable {ts us : List Token} {t : Token}

theorem SameNext.eq_nil (h : SameNext [] us) : us = [] := by
  cases us with
  | nil => rfl
  | cons u us => cases h

theorem SameNext.eq_cons (h : SameNext (t :: ts) us) : ∃ u us', us = u :: us' ∧ u.kind = t.kind := by
  cases us with
  | nil => cases h
  | cons u us => exact ⟨u, us, rfl, (Option.some.inj h).symm⟩

theorem SameNext.append (h : SameNext ts us) (w : List Token) : SameNext (w ++ ts) (w ++ us) := by
  cases w with
  | nil => exact h
  | cons t w => rfl

theorem SameNext.noneNext {kinds : Kind → Bool} (h : SameNext ts us) (hn : NoneNext kinds ts) :
    NoneNext kinds us := by
  cases ts with
  | nil => rw [h.eq_nil]; exact noneNext_nil
  | cons t ts =>
    obtain ⟨u, us, rfl, hu⟩ := h.eq_cons
    rw [noneNext_cons] at hn ⊢
    rwa [hu]

end SameNext

/-- No equals sign stands behind an expression other than a name. -/
def Assignable (ts : List Token) : Prop :=
  ∀ before equals after, ts = before ++ equals :: after → equals.kind = .equal →
    ∀ v e, v <:+ before → Reads .disjunction v e → ∃ t, e = .name t

theorem Assignable.of_append {v w : List Token} (h : Assignable (v ++ w)) : Assignable w := by
  rintro before equals after rfl hq u e hu hr
  exact h (v ++ before) equals after (by simp) hq u e (hu.trans (List.suffix_append v before)) hr

section

variable {ι κ α β : Type}

/-- What the result of a rule on the tokens `ts` shows. The rules `q` are the same rule with other
bounds, each good for lists up to some length. Of what is to be read, `pre` was passed before. If
the rule fails, then `x` is what is left where the blamed token stands. -/
inductive PromptAt (bound : ι → Nat) (q : ι → Rule α) (T : List Token → α → Prop) (pre ts : List Token) :
    Result α → Prop
  | ok {w rest : List Token} {a : α} (hts : ts = w ++ rest) (hT : T (pre ++ w) a)
      (hq : ∀ i y, (w ++ y).length ≤ bound i → SameNext rest y → q i (w ++ y) = .ok a y) :
      PromptAt bound q T pre ts (.ok a rest)
  | fail {w x rest : List Token} {fault : Fault} (hts : ts = w ++ x)
      (hx : ∀ stop, (fault.toError stop rest).token = x.headD stop)
      (hq : ∀ i y, (w ++ y).length ≤ bound i → SameNext x y → ∀ a r, q i (w ++ y) ≠ .ok a r)
      (hT : Assignable (pre ++ w) → ∃ u a, T (pre ++ w ++ u) a) :
        PromptAt bound q T pre ts (.fail fault rest)

/-- A rule that is good for lists of at most `n` tokens. -/
structure Prompt (n : Nat) (p : Rule α) (bound : ι → Nat) (q : ι → Rule α) (T : List Token → α → Prop)
    (pre : List Token) : Prop where
  run : ∀ ts, ts.length ≤ n → PromptAt bound q T pre ts (p ts)
  completable : ∃ u a, T (pre ++ u) a

variable {bound : ι → Nat} {q : ι → Rule α} {T : List Token → α → Prop} {pre ts : List Token}
    {r : Result α}
  {n : Nat} {p : Rule α}

theorem PromptAt.mono {R : List Token → α → Prop} (h : PromptAt bound q R [] ts r)
    (hT : ∀ w a, R w a → T (pre ++ w) a) : PromptAt bound q T pre ts r := by
  cases h with
  | ok hts hR hq => exact .ok hts (hT _ _ hR) hq
  | fail hts hx hq hR =>
    refine .fail hts hx hq fun ha => ?_
    obtain ⟨u, a, hR⟩ := hR ha.of_append
    exact ⟨u, a, by simpa using hT _ _ hR⟩

theorem PromptAt.reindex {bound' : κ → Nat} {q' : κ → Rule α} (h : PromptAt bound q T pre ts r)
    (hq' : ∀ j y, y.length ≤ bound' j → SameNext ts y → ∃ i, y.length ≤ bound i ∧ q' j y = q i y) :
    PromptAt bound' q' T pre ts r := by
  cases h with
  | @ok w rest a hts hT hq =>
    refine .ok hts hT fun j y hy hn => ?_
    obtain ⟨i, hi, he⟩ := hq' j (w ++ y) hy (hts ▸ hn.append w)
    rw [he]
    exact hq i y hi hn
  | @fail w x rest fault hts hx hq hT =>
    refine .fail hts hx (fun j y hy hn => ?_) hT
    obtain ⟨i, hi, he⟩ := hq' j (w ++ y) hy (hts ▸ hn.append w)
    rw [he]
    exact hq i y hi hn

theorem Prompt.reindex {bound' : κ → Nat} {q' : κ → Rule α} {m : Nat} (h : Prompt n p bound q T pre)
    (hm : m ≤ n) (hq' : ∀ j, ∃ i, bound' j ≤ bound i ∧ q' j = q i) : Prompt m p bound' q' T pre where
  run ts hn := by
    refine (h.run ts (Nat.le_trans hn hm)).reindex fun j y hy _ => ?_
    obtain ⟨i, hi, he⟩ := hq' j
    exact ⟨i, Nat.le_trans hy hi, by rw [he]⟩
  completable := h.completable

theorem PromptAt.append {bound' : κ → Nat} {q' : κ → Rule α} {v : List Token}
    (h : PromptAt bound q T (pre ++ v) ts r)
    (hq' : ∀ j ys, (v ++ ys).length ≤ bound' j → ∃ i, ys.length ≤ bound i ∧ q' j (v ++ ys) = q i ys) :
    PromptAt bound' q' T pre (v ++ ts) r := by
  cases h with
  | @ok w rest a hts hT hq =>
    refine .ok (w := v ++ w) (by rw [hts, List.append_assoc]) (by simpa using hT) fun j y hy hn => ?_
    rw [List.append_assoc] at hy ⊢
    obtain ⟨i, hi, he⟩ := hq' j (w ++ y) hy
    exact he.trans (hq i y hi hn)
  | @fail w x rest fault hts hx hq hT =>
    refine .fail (w := v ++ w) (by rw [hts, List.append_assoc]) hx (fun j y hy hn a r => ?_)
      (by simpa using hT)
    rw [List.append_assoc] at hy ⊢
    obtain ⟨i, hi, he⟩ := hq' j (w ++ y) hy
    exact fun hr => hq i y hi hn a r (he.symm.trans hr)

theorem PromptAt.cons {bound' : κ → Nat} {q' : κ → Rule α} {t : Token}
    (h : PromptAt bound q T (pre ++ [t]) ts r)
    (hq' : ∀ j ys, (t :: ys).length ≤ bound' j → ∃ i, ys.length ≤ bound i ∧ q' j (t :: ys) = q i ys) :
    PromptAt bound' q' T pre (t :: ts) r :=
  h.append hq'

theorem promptAt_fail {fault : Fault} (hx : ∀ stop, (fault.toError stop ts).token = ts.headD stop)
    (hq : ∀ i y, y.length ≤ bound i → SameNext ts y → ∀ a r, q i y ≠ .ok a r)
    (hT : ∃ u a, T (pre ++ u) a) :
    PromptAt bound q T pre ts (.fail fault ts) :=
  .fail (w := []) rfl hx hq fun _ => by simpa using hT

theorem promptAt_nil {fault : Fault} (hx : ∀ stop, (fault.toError stop []).token = stop)
    (hq : ∀ i, q i [] = .fail fault []) (hT : ∃ u a, T (pre ++ u) a) :
    PromptAt bound q T pre [] (.fail fault []) := by
  refine promptAt_fail hx (fun i y _ hn a r he => ?_) hT
  rw [hn.eq_nil, hq] at he
  cases he

section Bind

variable {T : List Token → β → Prop} {f : α → Rule β} {g : ι → α → Rule β} {bound' : ι → Nat}

theorem PromptAt.after {w rest : List Token} {a : α} {r : Result β}
    (hq : ∀ i y, (w ++ y).length ≤ bound i → SameNext rest y → q i (w ++ y) = .ok a y)
    (hb : ∀ i y, (w ++ y).length ≤ bound i → y.length ≤ bound' i)
    (h : PromptAt bound' (fun i => g i a) T (pre ++ w) rest r) :
    PromptAt bound (fun i => q i >>= g i) T pre (w ++ rest) r := by
  have hbind : ∀ {w' x y : List Token} {i : ι}, rest = w' ++ x → (w ++ w' ++ y).length ≤ bound i →
      SameNext x y → (q i >>= g i) (w ++ w' ++ y) = g i a (w' ++ y) ∧ (w' ++ y).length ≤ bound' i := by
    rintro w' x y i rfl hy hn
    rw [List.append_assoc] at hy ⊢
    exact ⟨by rw [bind_apply, hq i (w' ++ y) hy (hn.append w')], hb i _ hy⟩
  cases h with
  | @ok w' x b hts hT hg =>
    refine .ok (w := w ++ w') (by rw [hts, List.append_assoc]) (by simpa using hT) fun i y hy hn => ?_
    obtain ⟨he, hl⟩ := hbind hts hy hn
    rw [he, hg i y hl hn]
  | @fail w' x _ fault hts hx hg hT =>
    refine .fail (w := w ++ w') (by rw [hts, List.append_assoc]) hx (fun i y hy hn b r => ?_)
      (by simpa using hT)
    obtain ⟨he, hl⟩ := hbind hts hy hn
    rw [he]
    exact hg i y hl hn b r

variable {R : List Token → α → Prop} {n' : Nat}

/-- First one rule, then another one that may depend on what the first one gave. What the first one
has passed may leave less for the second one. -/
theorem PromptAt.andThen (hp : PromptAt bound q R [] ts (p ts))
    (hn : ∀ a w rest, R w a → ts = w ++ rest → rest.length ≤ n')
    (hb : ∀ a w, R w a → ∀ i y, (w ++ y).length ≤ bound i → y.length ≤ bound' i)
    (hf : ∀ a w, R w a → Prompt n' (f a) bound' (fun i => g i a) T (pre ++ w)) :
    PromptAt bound (fun i => q i >>= g i) T pre ts ((p >>= f) ts) := by
  rw [bind_apply]
  generalize p ts = r at hp
  cases hp with
  | @ok w rest a hts hR hq =>
    have hl := hn a w rest hR hts
    subst hts
    exact .after hq (hb a w hR) ((hf a w hR).run rest hl)
  | @fail w x rest fault hts hx hq hR =>
    refine .fail hts hx (fun i y hy hs b r he => ?_) fun ha => ?_
    · obtain ⟨a, mid, hqi, _⟩ := bind_eq_ok.1 he
      exact hq i y hy hs a mid hqi
    · obtain ⟨u, a, hR⟩ := hR ha.of_append
      obtain ⟨u', b, hT⟩ := (hf a _ hR).completable
      exact ⟨u ++ u', b, by simpa using hT⟩

theorem PromptAt.bind (hp : PromptAt bound q R [] ts (p ts)) (hn : ts.length ≤ n)
    (hf : ∀ a w, R w a → Prompt n (f a) bound (fun i => g i a) T (pre ++ w)) :
    PromptAt bound (fun i => q i >>= g i) T pre ts ((p >>= f) ts) := by
  have hle : ∀ {w y : List Token} {k : Nat}, (w ++ y).length ≤ k → y.length ≤ k := by
    intro w y k hy
    rw [List.length_append] at hy
    omega
  exact hp.andThen (fun _ w rest _ hts => hle (hts ▸ hn)) (fun _ w _ i y hy => hle hy) hf

theorem Prompt.bind (hp : Prompt n p bound q R [])
    (hf : ∀ a w, R w a → Prompt n (f a) bound (fun i => g i a) T (pre ++ w)) :
    Prompt n (p >>= f) bound (fun i => q i >>= g i) T pre where
  run ts hn := (hp.run ts hn).bind hn hf
  completable := by
    obtain ⟨u, a, hR⟩ := hp.completable
    obtain ⟨u', b, hT⟩ := (hf a u hR).completable
    exact ⟨u ++ u', b, by simpa using hT⟩

end Bind

theorem prompt_pure {a : α} (h : T pre a) : Prompt n (pure a) bound (fun _ => pure a) T pre where
  run ts _ := .ok (w := []) rfl (by simpa using h) fun _ _ _ _ => rfl
  completable := ⟨[], a, by simpa using h⟩

theorem prompt_nextIs (kind : Kind) :
    Prompt n (nextIs kind) bound (fun _ => nextIs kind) (fun w _ => w = []) [] where
  run ts _ := by
    have hs : nextIs kind ts = .ok ((ts.head?.map Token.kind).elim false (· == kind)) ts := by
      cases ts <;> rfl
    rw [hs]
    refine .ok (w := []) rfl rfl fun i y _ hn => ?_
    have hy : nextIs kind y = .ok ((y.head?.map Token.kind).elim false (· == kind)) y := by
      cases y <;> rfl
    rw [List.nil_append, hy, hn]
  completable := ⟨[], true, rfl⟩

theorem prompt_accept (kinds : Kind → Bool) : Prompt n (accept kinds) bound (fun _ => accept kinds)
    (fun w o => w = o.toList ∧ ∀ t ∈ o, kinds t.kind = true) [] where
  run ts _ := by
    obtain hs | ⟨t, us, rfl, ht⟩ := noneNext_or_eq_cons kinds ts
    · rw [accept_eq_none.2 ⟨rfl, hs⟩]
      exact .ok (w := []) rfl ⟨rfl, by simp⟩ fun i y _ hn => accept_eq_none.2 ⟨rfl, hn.noneNext hs⟩
    · rw [accept_eq_some.2 ⟨rfl, ht⟩]
      exact .ok (w := [t]) rfl ⟨rfl, by simp [ht]⟩ fun i y _ _ => accept_eq_some.2 ⟨rfl, ht⟩
  completable := ⟨[], none, rfl, by simp⟩

theorem prompt_expect (kind : Kind) (message : String) : Prompt n (expect kind message) bound
    (fun _ => expect kind message) (fun w t => w = [t] ∧ t.kind = kind) [] where
  run ts _ := by
    have hc : ∃ (u : List Token) (t : Token), u = [t] ∧ t.kind = kind :=
      ⟨_, ⟨kind, "", .nil, 0⟩, rfl, rfl⟩
    cases ts with
    | nil => exact promptAt_nil (fun _ => rfl) (fun _ => rfl) hc
    | cons t ts =>
      by_cases ht : t.kind = kind
      · rw [expect_eq_ok.2 ⟨rfl, ht⟩]
        exact .ok (w := [t]) rfl ⟨rfl, ht⟩ fun i y _ _ => expect_eq_ok.2 ⟨rfl, ht⟩
      · rw [expect, if_neg ht]
        refine promptAt_fail (fun _ => rfl) (fun i y _ hn u r he => ?_) hc
        obtain ⟨v, vs, rfl, hv⟩ := hn.eq_cons
        obtain ⟨hvs, hu⟩ := expect_eq_ok.1 he
        cases hvs
        exact ht (hv ▸ hu)
  completable := ⟨_, ⟨kind, "", .nil, 0⟩, rfl, rfl⟩

end

end Lox.Grammar
