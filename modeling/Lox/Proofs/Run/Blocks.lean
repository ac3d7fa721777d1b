import Lox.Proofs.Run.StaticScope

namespace Lox

open Run

namespace Scopes

variable {δ : Type} {g : Scope → δ} {scopes after : Scopes} {x : String} {v : Value}

/-- What is seen of each scope, the innermost first. -/
def each (g : Scope → δ) (scopes : Scopes) : List δ := scopes.toList.map g

theorem each_ne_nil (scopes : Scopes) : scopes.each g ≠ [] := by
  cases scopes with
  | root s => simp [each, toList]
  | nested s outer => simp [each, toList]

theorem each_pop {b : δ} {bs : List δ} (h : scopes.each g = b :: bs) (hb : bs ≠ []) :
    scopes.pop.each g = bs := by
  cases scopes with
  | root s => exact absurd (List.cons.inj h).2.symm hb
  | nested s outer => exact (List.cons.inj h).2

theorem each_define (h : ∀ s : Scope, g (s.put x v) = g s) (scopes : Scopes) :
    (scopes.define x v).each g = scopes.each g := by
  cases scopes with
  | root s => simp [each, define, toList, h]
  | nested s outer => simp [each, define, toList, h]

theorem each_assign? (hg : ∀ s : Scope, g (s.put x v) = g s) (h : scopes.assign? x v = some after) :
    after.each g = scopes.each g := by
  induction scopes generalizing after with
  | root s =>
    simp only [assign?, Option.ite_none_right_eq_some, Option.some.injEq] at h
    rw [← h.2]
    simp [each, toList, hg]
  | nested s outer ih =>
    rw [assign?] at h
    split at h
    · cases h
      simp [each, toList, hg]
    · obtain ⟨outer', ho, rfl⟩ := Option.map_eq_some_iff.1 h
      have ho := ih ho
      simp only [each] at ho
      simp [each, toList, ho]

theorem each_write {t : Token} (hg : ∀ s : Scope, g (s.put t.lexeme v) = g s)
    (h : scopes.write t v = .ok after) : after.each g = scopes.each g := by
  rw [write] at h
  split at h
  · cases h
    exact each_assign? hg ‹_›
  · cases h

theorem isGlobal_iff : scopes.isGlobal = true ↔ scopes.each (fun _ => ()) = [()] := by
  cases scopes with
  | root s => simp [isGlobal, each, toList]
  | nested s outer =>
    cases outer with
    | root s' => simp [isGlobal, each, toList]
    | nested s' outer => simp [isGlobal, each, toList]

end Scopes

namespace State

def each {δ : Type} (g : Scope → δ) (state : State) : List δ := state.scopes.each g

def bindings (x : String) : State → List (Option Value) := each (Scope.get? x)

end State

namespace Stmt

mutual

def targets : Stmt → List String
  | expression e => e.targets
  | print e => e.targets
  | declare t e => t.lexeme :: e.targets
  | block ss => targetsAll ss
  | ifThen c s => c.targets ++ s.targets
  | ifElse c s t => c.targets ++ (s.targets ++ t.targets)
  | whileLoop c s => c.targets ++ s.targets

def targetsAll : List Stmt → List String
  | [] => []
  | s :: ss => s.targets ++ targetsAll ss

end

mutual

def parts : Stmt → List Stmt
  | expression e => [expression e]
  | print e => [print e]
  | declare t e => [declare t e]
  | block ss => block ss :: partsAll ss
  | ifThen c s => ifThen c s :: s.parts
  | ifElse c s t => ifElse c s t :: (s.parts ++ t.parts)
  | whileLoop c s => whileLoop c s :: s.parts

def partsAll : List Stmt → List Stmt
  | [] => []
  | s :: ss => s.parts ++ partsAll ss

end

mutual

theorem isWellShaped_of_mem_parts {t s : Stmt} (ht : t.isWellShaped = true) (hs : s ∈ t.parts) :
    s.isWellShaped = true := by
  match t with
  | expression e | print e | declare u e =>
    rw [List.mem_singleton.1 hs]
    exact ht
  | block ss =>
    obtain rfl | hs := List.mem_cons.1 hs
    · exact ht
    · exact isWellShaped_of_mem_partsAll (by simpa only [isWellShaped] using ht) hs
  | ifThen c t | whileLoop c t =>
    obtain rfl | hs := List.mem_cons.1 hs
    · exact ht
    · simp only [isWellShaped, Bool.and_eq_true] at ht
      exact isWellShaped_of_mem_parts ht.2 hs
  | ifElse c t t' =>
    obtain rfl | hs := List.mem_cons.1 hs
    · exact ht
    · simp only [isWellShaped, Bool.and_eq_true] at ht
      obtain hs | hs := List.mem_append.1 hs
      · exact isWellShaped_of_mem_parts ht.1.1.2 hs
      · exact isWellShaped_of_mem_parts ht.2 hs

theorem isWellShaped_of_mem_partsAll {ts : List Stmt} {s : Stmt} (ht : areWellShaped ts = true)
    (hs : s ∈ partsAll ts) : s.isWellShaped = true := by
  match ts with
  | [] => cases hs
  | t :: ts =>
    simp only [areWellShaped, Bool.and_eq_true] at ht
    obtain hs | hs := List.mem_append.1 hs
    · exact isWellShaped_of_mem_parts ht.1 hs
    · exact isWellShaped_of_mem_partsAll ht.2 hs

end

end Stmt

namespace Grammar

theorem isWellShaped_of_mem_parse {tokens : List Token} {s : Stmt} (hs : s ∈ (parse tokens).statements) :
    s.isWellShaped = true := by
  obtain ⟨w, -, hr⟩ := exists_reads_of_mem_parse hs
  have hw : Stmt.areWellShaped [s] = true := hr.isShaped
  simpa [Stmt.areWellShaped] using hw

end Grammar

namespace State

variable {δ : Type}

theorem layered_each (g : Scope → δ) : Layered (each g) where
  emit _ _ := rfl
  define x v state := by
    obtain ⟨scopes, output⟩ := state
    cases scopes <;> rfl
  inScope {run} h state := by
    have ho : (each g (run { state with scopes := state.scopes.push }).2).tail = state.each g :=
      h { state with scopes := state.scopes.push }
    obtain ⟨b, bs, hb⟩ := List.exists_cons_of_ne_nil
      (Scopes.each_ne_nil (g := g) (run { state with scopes := state.scopes.push }).2.scopes)
    rw [each, hb, List.tail_cons] at ho
    exact (Scopes.each_pop hb (ho ▸ state.scopes.each_ne_nil)).trans ho

end State

namespace Exec

variable {δ : Type} {g : Scope → δ} {e : Expr} {x y : String}

theorem eval_keeps_each (h : ∀ x ∈ e.targets, ∀ v (s : Scope), g (s.put x v) = g s) :
    Keeps (State.each g) (eval e) := by
  have he : Keeps (Scopes.each g) e.eval :=
    Expr.eval_keeps_of_targets fun t ht v _ _ hw => Scopes.each_write (h _ ht v) hw
  exact fun state => he state.scopes

theorem define_keeps_each {v : Value} (h : ∀ s : Scope, g (s.put x v) = g s) :
    Keeps (State.each g) (define x v) := fun state => Scopes.each_define h state.scopes

theorem eval_keeps_bindings (hx : x ∉ e.targets) : Keeps (State.bindings x) (eval e) := by
  apply eval_keeps_each
  intro y hy v s
  have hyx : y ≠ x := fun he => hx (he ▸ hy)
  rw [Scope.get?_put, if_neg hyx]

theorem define_keeps_bindings (hyx : y ≠ x) (v : Value) : Keeps (State.bindings x) (define y v) := by
  apply define_keeps_each
  intro s
  rw [Scope.get?_put, if_neg hyx]

end Exec

namespace Stmt

mutual

theorem targets_subset {s : Stmt} {e : Expr} (he : e ∈ s.expressions) : e.targets ⊆ s.targets := by
  match s with
  | expression e' | print e' =>
    rw [List.mem_singleton.1 he]
    exact List.Subset.refl _
  | declare t e' =>
    rw [List.mem_singleton.1 he]
    exact List.subset_cons_self _ _
  | block ss => exact targets_subsetAll he
  | ifThen c s | whileLoop c s =>
    obtain rfl | he := List.mem_cons.1 he
    · exact List.subset_append_left _ _
    · exact List.subset_append_of_subset_right _ (targets_subset he)
  | ifElse c s t =>
    obtain rfl | he := List.mem_cons.1 he
    · exact List.subset_append_left _ _
    · obtain he | he := List.mem_append.1 he
      · exact List.subset_append_of_subset_right _
          (List.subset_append_of_subset_left _ (targets_subset he))
      · exact List.subset_append_of_subset_right _
          (List.subset_append_of_subset_right _ (targets_subset he))

theorem targets_subsetAll {ss : List Stmt} {e : Expr} (he : e ∈ expressionsAll ss) :
    e.targets ⊆ targetsAll ss := by
  match ss with
  | [] => cases he
  | s :: ss =>
    obtain he | he := List.mem_append.1 he
    · exact List.subset_append_of_subset_left _ (targets_subset he)
    · exact List.subset_append_of_subset_right _ (targets_subsetAll he)

end

theorem exposes_subset_targets (s : Stmt) : s.exposes ⊆ s.targets := by
  match s with
  | expression e | print e | block ss => exact List.nil_subset _
  | declare t e => exact List.cons_subset_cons _ (List.nil_subset _)
  | ifThen c s | whileLoop c s => exact List.subset_append_of_subset_right _ (exposes_subset_targets s)
  | ifElse c s t =>
    have hst : s.exposes ++ t.exposes ⊆ s.targets ++ t.targets := List.append_subset.2
      ⟨List.subset_append_of_subset_left _ (exposes_subset_targets s),
        List.subset_append_of_subset_right _ (exposes_subset_targets t)⟩
    exact List.subset_append_of_subset_right _ hst

variable (rounds : Nat)

theorem exec_keeps_bindings {s : Stmt} {x : String} (hx : x ∉ s.targets) :
    Keeps (State.bindings x) (exec rounds s) := by
  apply exec_keeps_of_eval rounds (State.layered_each _) id
  · exact fun e he => Exec.eval_keeps_bindings fun h => hx (targets_subset he h)
  · intro y hy v
    have hyx : y ≠ x := fun h => hx (h ▸ s.exposes_subset_targets hy)
    exact Exec.define_keeps_bindings hyx v

/-- A declaration that fails declares nothing. -/
theorem declared_of_exec_error {s : Stmt} (hw : s.isWellShaped = true) {halt : Halt}
    {state after : State} (h : exec rounds s state = (.error halt, after)) :
    after.declared = state.declared := by
  cases hd : s.isDeclaration with
  | false =>
    have hk := exec_keeps rounds hw hd state
    rwa [h] at hk
  | true =>
    cases s with
    | declare t e =>
      have hk := Exec.eval_keeps e state
      simp only [exec, bind_apply] at h
      cases hr : Exec.eval e state with
      | mk result state' =>
        rw [hr] at h hk
        cases result with
        | error _ =>
          rw [← (Prod.mk.inj h).2]
          exact hk
        | ok v => cases (Prod.mk.inj h).1
    | _ => cases hd

theorem execAll_isGlobal {ss : List Stmt} {state : State} (h : state.scopes.isGlobal = true) :
    (execAll rounds ss state).2.scopes.isGlobal = true := by
  have hk : Keeps (State.each fun _ => ()) (execAll rounds ss) :=
    execAll_keeps_of_eval rounds (State.layered_each _) id
      (fun _ _ => Exec.eval_keeps_each fun _ _ _ _ => rfl)
      fun _ _ _ => Exec.define_keeps_each fun _ => rfl
  rw [Scopes.isGlobal_iff] at h ⊢
  exact (hk state).trans h

/-- The state after several programs, each run from where the one before has ended, be it at an
error. -/
def afterAll (programs : List (List Stmt)) (state : State) : State :=
  programs.foldl (fun state program => (execAll rounds program state).2) state

theorem afterAll_isGlobal (programs : List (List Stmt)) {state : State}
    (h : state.scopes.isGlobal = true) :
    (afterAll rounds programs state).scopes.isGlobal = true := by
  induction programs generalizing state with
  | nil => exact h
  | cons program programs ih => exact ih (execAll_isGlobal rounds h)

end Stmt

/-- However a statement of a program ends, the scopes are those from before, in the same order: each
has the names that it had, up to the name of a declaration that came to its end, and each still
binds what it bound to every name that the statement does not mention. So runs one after the other
all end at the global scope. -/
theorem exec_keeps_blocks {tokens : List Token} {t s : Stmt} (ht : t ∈ (parse tokens).statements)
    (hs : s ∈ t.parts) (rounds : Nat) (state : State) :
    (∀ u after, s.exec rounds state = (.ok u, after) → after.declared = s.extend state.declared) ∧
      (∀ halt after, s.exec rounds state = (.error halt, after) → after.declared = state.declared) ∧
      (∀ x ∉ s.targets, (s.exec rounds state).2.bindings x = state.bindings x) ∧
      ∀ programs : List (List Stmt), (Stmt.afterAll rounds programs .fresh).scopes.isGlobal = true := by
  have hw : s.isWellShaped = true :=
    Stmt.isWellShaped_of_mem_parts (Grammar.isWellShaped_of_mem_parse ht) hs
  exact ⟨fun _ _ => Stmt.declared_of_exec rounds hw, fun _ _ => Stmt.declared_of_exec_error rounds hw,
    fun x hx => Stmt.exec_keeps_bindings rounds hx state,
      fun programs => Stmt.afterAll_isGlobal rounds programs rfl⟩

/-- An error in a block inside of a block, behind a declaration and an assignment:
`{ var b; { var c; a = true; -b; } }` -/
def failing : List Token :=
  let named (x : String) : Token := ⟨.identifier, x, .nil, 1⟩
  let bare := Grammar.bare
  [bare .leftBrace, bare .kwVar, named "b", bare .semicolon,
    bare .leftBrace, bare .kwVar, named "c", bare .semicolon,
    named "a", bare .equal, bare .kwTrue, bare .semicolon,
    bare .minus, named "b", bare .semicolon, bare .rightBrace, bare .rightBrace]

theorem failing_keeps_blocks :
    let named (x : String) : Token := ⟨.identifier, x, .nil, 1⟩
    let inner : Stmt := .block [.declare (named "c") (.literal .nil),
      .expression (.assign (named "a") (.literal (.bool true))),
      .expression (.unary (Grammar.bare .minus) (.name (named "b")))]
    let outer : Stmt := .block [.declare (named "b") (.literal .nil), inner]
    let state : State := ⟨.nested [("d", .nil), ("b", .nil)] (.root [("a", .nil)]), ""⟩
    outer ∈ (parse failing).statements ∧ inner ∈ outer.parts ∧ "d" ∉ inner.targets ∧
      ∃ halt after, inner.exec 0 state = (.error halt, after) ∧ after.declared = state.declared ∧
        after.bindings "d" = state.bindings "d" ∧ after.bindings "a" = [none, some (.bool true)] := by
  intro named inner outer state
  have ht : outer ∈ (parse failing).statements := by
    have he : (parse failing).statements = [outer] := by rfl
    rw [he]
    exact List.mem_singleton_self outer
  have hs : inner ∈ outer.parts := by simp [outer, inner, Stmt.parts, Stmt.partsAll]
  have hd : "d" ∉ inner.targets := by decide
  obtain ⟨-, herror, hbindings, -⟩ := exec_keeps_blocks ht hs 0 state
  exact ⟨ht, hs, hd, _, _, rfl, herror _ _ rfl, hbindings "d" hd, rfl⟩

end Lox
