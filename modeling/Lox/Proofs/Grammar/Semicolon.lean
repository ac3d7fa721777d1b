import Lox.Proofs.Grammar.Passage

namespace Lox.Grammar

def Result.before {α : Type} (x : List Token) : Result α → Result α
  | .ok a rest => .ok a (rest ++ x)
  | .fail fault rest => .fail fault (rest ++ x)

/-- A rule that takes a semicolon for the end of the tokens. -/
def StopsAtSemicolon {α : Type} (p : Rule α) : Prop :=
  ∀ ts semi x, semi.kind = .semicolon → p (ts ++ semi :: x) = (p ts).before (semi :: x)

section Rules

variable {α β : Type} {p : Rule α}

theorem stopsAtSemicolon_pure (a : α) : StopsAtSemicolon (pure a : Rule α) := fun _ _ _ _ => rfl

theorem stopsAtSemicolon_fail (fault : Fault) : StopsAtSemicolon (Rule.fail fault : Rule α) :=
  fun _ _ _ _ => rfl

theorem StopsAtSemicolon.bind {f : α → Rule β} (hp : StopsAtSemicolon p)
    (hf : ∀ a, StopsAtSemicolon (f a)) :
    StopsAtSemicolon (p >>= f) := by
  intro ts semi x hs
  rw [Rule.bind_apply, Rule.bind_apply, hp ts semi x hs]
  cases p ts with
  | ok a rest => exact hf a rest semi x hs
  | fail fault rest => rfl

theorem stopsAtSemicolon_accept {kinds : Kind → Bool} (hk : kinds .semicolon = false) :
    StopsAtSemicolon (Rule.accept kinds) := by
  intro ts semi x hs
  cases ts with
  | nil => simp [Rule.accept, hs, hk, Result.before]
  | cons t ts => cases ht : kinds t.kind <;> simp [Rule.accept, ht, Result.before]

theorem stopsAtSemicolon_expect {kind : Kind} (hk : kind ≠ .semicolon) (message : String) :
    StopsAtSemicolon (Rule.expect kind message) := by
  intro ts semi x hs
  cases ts with
  | nil => simp [Rule.expect, hs, hk.symm, Result.before]
  | cons t ts => by_cases ht : t.kind = kind <;> simp [Rule.expect, ht, Result.before]

end Rules

section Expressions

variable {p : Rule Expr} (h : StopsAtSemicolon p)

include h

theorem stopsAtSemicolon_grouping : StopsAtSemicolon (grouping p) :=
  h.bind fun _ => (stopsAtSemicolon_expect (by decide) _).bind fun _ => stopsAtSemicolon_pure _

theorem stopsAtSemicolon_primary : StopsAtSemicolon (primary p) := by
  intro ts semi x hs
  cases ts with
  | nil => simp [primary, hs, Result.before]
  | cons t ts =>
    rw [List.cons_append]
    cases primaryStart t with
    | literal _ ht | name _ ht =>
      rw [ht, ht]
      rfl
    | grouping _ ht =>
      rw [ht, ht]
      exact stopsAtSemicolon_grouping h ts semi x hs
    | none ht =>
      rw [ht p t _ rfl, ht p t _ rfl]
      rfl

theorem stopsAtSemicolon_unary : StopsAtSemicolon (unary p) := by
  intro ts semi x hs
  induction ts with
  | nil =>
    have hn : Rule.NoneNext isUnary (semi :: x) := Rule.noneNext_cons.2 (by rw [hs]; rfl)
    rw [List.nil_append, unary_of_noneNext hn, unary]
    exact stopsAtSemicolon_primary h [] semi x hs
  | cons t ts ih =>
    cases ht : isUnary t.kind with
    | true =>
      rw [List.cons_append, unary_cons_of_isUnary ht, unary_cons_of_isUnary ht, Rule.bind_apply,
        Rule.bind_apply, ih]
      cases unary p ts <;> rfl
    | false =>
      have hn : ∀ us, Rule.NoneNext isUnary (t :: us) := fun _ => Rule.noneNext_cons.2 ht
      rw [List.cons_append, unary_of_noneNext (hn _), unary_of_noneNext (hn _)]
      exact stopsAtSemicolon_primary h (t :: ts) semi x hs

theorem stopsAtSemicolon_chain {isOperator : Kind → Bool} {combine : Expr → Token → Expr → Expr}
    (hk : isOperator .semicolon = false) (n : Nat) :
    StopsAtSemicolon (chain p isOperator combine n) := by
  have hfrom : ∀ n left, StopsAtSemicolon (chainFrom p isOperator combine n left) := by
    intro n
    induction n with
    | zero => exact stopsAtSemicolon_pure
    | succ n ih =>
      exact fun left => (stopsAtSemicolon_accept hk).bind fun
        | none => stopsAtSemicolon_pure left
        | some _ => h.bind fun _ => ih _
  exact h.bind fun left => hfrom n left

theorem stopsAtSemicolon_disjunction (n : Nat) : StopsAtSemicolon (disjunction n p) := by
  have hf : StopsAtSemicolon (factor n p) := stopsAtSemicolon_chain (stopsAtSemicolon_unary h) rfl n
  have ht : StopsAtSemicolon (term n p) := stopsAtSemicolon_chain hf rfl n
  have hc : StopsAtSemicolon (comparison n p) := stopsAtSemicolon_chain ht rfl n
  have he : StopsAtSemicolon (equality n p) := stopsAtSemicolon_chain hc rfl n
  have hj : StopsAtSemicolon (conjunction n p) := stopsAtSemicolon_chain he rfl n
  exact stopsAtSemicolon_chain hj rfl n

theorem stopsAtSemicolon_assignment (n : Nat) : StopsAtSemicolon (assignment p n) := by
  induction n with
  | zero => exact h
  | succ n ih =>
    refine h.bind fun left => (stopsAtSemicolon_accept rfl).bind fun
      | none => stopsAtSemicolon_pure left
      | some equals => ih.bind fun right => ?_
    cases left with
    | name target => exact stopsAtSemicolon_pure _
    | _ => exact stopsAtSemicolon_fail _

omit h

theorem stopsAtSemicolon_expression (n : Nat) : StopsAtSemicolon (expression n) := by
  induction n with
  | zero => exact stopsAtSemicolon_fail _
  | succ n ih =>
    exact stopsAtSemicolon_chain
      (stopsAtSemicolon_assignment (stopsAtSemicolon_disjunction ih (n + 1)) (n + 1)) rfl
      (n + 1)

end Expressions

/-- A rule that passes the next semicolon or fails in front of it. -/
def EndsAtSemicolon {α : Type} (p : Rule α) : Prop :=
  ∀ ts semi x, semi.kind = .semicolon → (∀ t ∈ ts, t.kind ≠ .semicolon) →
    (∃ a, p (ts ++ semi :: x) = .ok a x) ∨
      ∃ fault rest, rest <:+ ts ∧ p (ts ++ semi :: x) = .fail fault (rest ++ semi :: x)

section Statements

variable {α β : Type} {p : Rule α}

theorem endsAtSemicolon_expect (message : String) (a : α) :
    EndsAtSemicolon (Rule.expect .semicolon message >>= fun _ => pure a) := by
  intro ts semi x hs hts
  cases ts with
  | nil =>
    have he : Rule.expect .semicolon message (semi :: x) = .ok semi x := Rule.expect_eq_ok.2 ⟨rfl, hs⟩
    exact .inl ⟨a, by rw [List.nil_append, Rule.bind_apply, he]; rfl⟩
  | cons t ts =>
    have ht := hts t List.mem_cons_self
    refine .inr ⟨.expected .semicolon message, t :: ts, List.suffix_refl _, ?_⟩
    rw [List.cons_append, Rule.bind_apply, Rule.expect, if_neg ht]

theorem StopsAtSemicolon.endsBind {f : α → Rule β} (h : StopsAtSemicolon p) (hp : Forward p)
    (hf : ∀ a, EndsAtSemicolon (f a)) : EndsAtSemicolon (p >>= f) := by
  intro ts semi x hs hts
  have hpassed := hp ts
  rw [Rule.bind_apply, h ts semi x hs]
  generalize p ts = r at hpassed
  cases hpassed with
  | @ok w rest a hw =>
    have hsuffix : rest <:+ ts := ⟨w, hw.symm⟩
    obtain hok | ⟨fault, rest', hr, hfail⟩ := hf a rest semi x hs fun t ht => hts t (hsuffix.mem ht)
    · exact .inl hok
    · exact .inr ⟨fault, rest', hr.trans hsuffix, hfail⟩
  | @fail w rest fault hw _ => exact .inr ⟨fault, rest, ⟨w, hw.symm⟩, rfl⟩

variable {expr : Rule Expr} (h : StopsAtSemicolon expr) (he : Forward expr)

include h he

theorem endsAtSemicolon_declaration : EndsAtSemicolon (declaration expr) :=
  (stopsAtSemicolon_expect (by decide) _).endsBind (forward_expect _ _) fun _ =>
    (stopsAtSemicolon_accept rfl).endsBind (forward_accept _) fun
      | some _ => h.endsBind he fun _ => endsAtSemicolon_expect _ _
      | none => (stopsAtSemicolon_pure _).endsBind (forward_pure _) fun _ => endsAtSemicolon_expect _ _

theorem endsAtSemicolon_printing : EndsAtSemicolon (printing expr) :=
  h.endsBind he fun _ => endsAtSemicolon_expect _ _

theorem endsAtSemicolon_expressionStatement : EndsAtSemicolon (expressionStatement expr) :=
  h.endsBind he fun _ => endsAtSemicolon_expect _ _

end Statements

theorem recover_append_semicolon {rest x : List Token} {semi : Token} (hs : semi.kind = .semicolon)
    (hr : ∀ t ∈ rest, t.kind ≠ .semicolon ∧ startsStatement t.kind = false) :
    recover (rest ++ semi :: x) = x := by
  induction rest with
  | nil => cases x <;> simp [recover, hs]
  | cons t rest ih =>
    have ht := (hr t List.mem_cons_self).1
    have hrest := ih fun u hu => hr u (List.mem_cons_of_mem _ hu)
    cases rest with
    | nil =>
      have hsemi : startsStatement semi.kind = false := by rw [hs]; rfl
      rw [List.singleton_append, recover, if_neg ht]
      simp only [hsemi]
      exact hrest
    | cons u us =>
      have hu := (hr u (by simp)).2
      rw [List.cons_append, List.cons_append, recover, if_neg ht]
      simp only [hu]
      exact hrest

end Lox.Grammar
