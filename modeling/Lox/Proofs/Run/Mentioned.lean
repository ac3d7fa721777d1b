import Lox.Proofs.Run.Blocks
import Lox.Proofs.Run.Simulation

namespace Lox

open Run

def Scope.Agree (names : String → Prop) (s t : Scope) : Prop := ∀ x, names x → s.get? x = t.get? x

theorem Scope.Agree.put {names : String → Prop} {s t : Scope} (h : Agree names s t) (x : String)
    (v : Value) :
    Agree names (s.put x v) (t.put x v) := by
  intro y hy
  rw [get?_put, get?_put, h y hy]

namespace Scopes

variable {names : String → Prop} {c d : Scopes} {x : String}

/-- Chains of the same length that bind the names alike in every scope. -/
inductive Agree (names : String → Prop) : Scopes → Scopes → Prop
  | root {s t : Scope} (h : s.Agree names t) : Agree names (root s) (root t)
  | nested {s t : Scope} {c d : Scopes} (h : s.Agree names t) (ho : Agree names c d) :
      Agree names (nested s c) (nested t d)

theorem Agree.get?_eq (h : Agree names c d) (hx : names x) : c.get? x = d.get? x := by
  induction h with
  | root h => exact h x hx
  | nested h _ ih => rw [get?, get?, h x hx, ih]

theorem Agree.assign?_rel (h : Agree names c d) (hx : names x) (v : Value) :
    Option.Rel (Agree names) (c.assign? x v) (d.assign? x v) := by
  induction h with
  | root h =>
    rw [assign?, assign?, h x hx]
    split
    · exact .some (.root (h.put x v))
    · exact .none
  | @nested s t c d h ho ih =>
    rw [assign?, assign?, h x hx]
    split
    · exact .some (.nested (h.put x v) ho)
    · generalize c.assign? x v = c', d.assign? x v = d' at ih
      cases ih with
      | none => exact .none
      | some ho' => exact .some (.nested h ho')

theorem simulates_agree : Simulates names fun _ => Agree names where
  get? h hx := h.get?_eq hx
  assign? v h hx := h.assign?_rel hx v
  define {_ _ _ x} v h _ := by
    cases h with
    | root h => exact .root (h.put x v)
    | nested h ho => exact .nested (h.put x v) ho
  push h := .nested (fun _ _ => rfl) h
  pop h := by
    cases h with
    | root h => exact .root h
    | nested _ ho => exact ho

end Scopes

namespace Grammar

def Spells (w : List Token) (xs : List String) : Prop :=
  ∀ x ∈ xs, ∃ t ∈ w, t.kind = .identifier ∧ t.lexeme = x

section Spells

variable {v w : List Token} {x : String} {xs ys : List String}

theorem spells_nil (w : List Token) : Spells w [] := fun _ hx => absurd hx List.not_mem_nil

theorem spells_cons :
    Spells w (x :: xs) ↔ (∃ t ∈ w, t.kind = .identifier ∧ t.lexeme = x) ∧ Spells w xs :=
  List.forall_mem_cons

theorem spells_append : Spells w (xs ++ ys) ↔ Spells w xs ∧ Spells w ys := List.forall_mem_append

theorem Spells.mono (h : Spells v xs) (hv : v ⊆ w) : Spells w xs := by
  intro x hx
  obtain ⟨t, ht, hk⟩ := h x hx
  exact ⟨t, hv ht, hk⟩

end Spells

theorem spells_of_isWellShaped {e : Expr} (h : e.isWellShaped = true) :
    Spells e.kept (e.occurrences.map Token.lexeme) := by
  induction e with
  | literal v => exact spells_nil _
  | name t =>
    simp only [Expr.isWellShaped, beq_iff_eq] at h
    exact spells_cons.2 ⟨⟨t, List.mem_singleton_self t, h, rfl⟩, spells_nil _⟩
  | assign t e ih =>
    simp only [Expr.isWellShaped, Bool.and_eq_true, beq_iff_eq] at h
    rw [Expr.occurrences, List.map_append]
    refine spells_append.2 ⟨(ih h.2).mono (List.subset_cons_self _ _),
      spells_cons.2 ⟨⟨t, ?_, h.1, rfl⟩, spells_nil _⟩⟩
    exact List.mem_cons_self
  | unary t e ih =>
    simp only [Expr.isWellShaped, Bool.and_eq_true] at h
    exact (ih h.2).mono (List.subset_cons_self _ _)
  | binary a t b iha ihb | logical a t b iha ihb =>
    simp only [Expr.isWellShaped, Bool.and_eq_true] at h
    have hab : Spells (a.kept ++ b.kept) ((a.occurrences ++ b.occurrences).map Token.lexeme) := by
      rw [List.map_append]
      exact spells_append.2 ⟨(iha h.1.2).mono (List.subset_append_left _ _),
        (ihb h.2).mono (List.subset_append_right _ _)⟩
    exact hab.mono (List.subset_cons_self _ _)
  | grouping e ih => exact ih h

mutual

theorem spells_mentioned {s : Stmt} (h : s.isWellShaped = true) : Spells s.kept s.mentioned := by
  match s with
  | .expression e | .print e => exact spells_of_isWellShaped h
  | .declare t e =>
    simp only [Stmt.isWellShaped, Bool.and_eq_true, beq_iff_eq] at h
    exact spells_cons.2 ⟨⟨t, List.mem_cons_self, h.1, rfl⟩,
      (spells_of_isWellShaped h.2).mono (List.subset_cons_self _ _)⟩
  | .block ss => exact spells_mentionedAll (by simpa only [Stmt.isWellShaped] using h)
  | .ifThen c s | .whileLoop c s =>
    simp only [Stmt.isWellShaped, Bool.and_eq_true] at h
    exact spells_append.2 ⟨(spells_of_isWellShaped h.1.1).mono (List.subset_append_left _ _),
      (spells_mentioned h.2).mono (List.subset_append_right _ _)⟩
  | .ifElse c s t =>
    simp only [Stmt.isWellShaped, Bool.and_eq_true] at h
    have hst : Spells (s.kept ++ t.kept) (s.mentioned ++ t.mentioned) := spells_append.2
      ⟨(spells_mentioned h.1.1.2).mono (List.subset_append_left _ _),
        (spells_mentioned h.2).mono (List.subset_append_right _ _)⟩
    exact spells_append.2 ⟨(spells_of_isWellShaped h.1.1.1.1.1).mono (List.subset_append_left _ _),
      hst.mono (List.subset_append_right _ _)⟩

theorem spells_mentionedAll {ss : List Stmt} (h : Stmt.areWellShaped ss = true) :
    Spells (Stmt.keptAll ss) (Stmt.mentionedAll ss) := by
  match ss with
  | [] => exact spells_nil _
  | s :: ss =>
    simp only [Stmt.areWellShaped, Bool.and_eq_true] at h
    exact spells_append.2 ⟨(spells_mentioned h.1).mono (List.subset_append_left _ _),
      (spells_mentionedAll h.2).mono (List.subset_append_right _ _)⟩

end

theorem areWellShaped_parse (tokens : List Token) :
    Stmt.areWellShaped (parse tokens).statements = true := by
  have h : ∀ s ∈ (parse tokens).statements, s.isWellShaped = true := fun s => isWellShaped_of_mem_parse
  generalize (parse tokens).statements = ss at h
  induction ss with
  | nil => rfl
  | cons s ss ih =>
    obtain ⟨hs, hss⟩ := List.forall_mem_cons.1 h
    rw [Stmt.areWellShaped, hs, ih hss]
    rfl

theorem spells_parse (tokens : List Token) :
    Spells tokens (Stmt.mentionedAll (parse tokens).statements) :=
  (spells_mentionedAll (areWellShaped_parse tokens)).mono (keptAll_parse_subset tokens)

end Grammar

namespace Stmt

variable {ss : List Stmt} {x : String} (rounds : Nat)

theorem exists_execAll_root (ss : List Stmt) (s : Scope) (output : String) :
    ∃ result after printed, execAll rounds ss ⟨.root s, output⟩ = (result, ⟨.root after, printed⟩) := by
  have hg : (execAll rounds ss ⟨.root s, output⟩).2.scopes.isGlobal = true := execAll_isGlobal rounds rfl
  generalize execAll rounds ss ⟨.root s, output⟩ = r at hg
  obtain ⟨result, scopes, printed⟩ := r
  cases scopes with
  | root after => exact ⟨result, after, printed, rfl⟩
  | nested s outer => cases hg

theorem execAll_agree {names : String → Prop} (hw : areWellShaped ss = true)
    (hn : ∀ x ∈ mentionedAll ss, names x) {s t : Scope} (h : s.Agree names t) (output : String) :
    ∃ result after after' printed,
      execAll rounds ss ⟨.root s, output⟩ = (result, ⟨.root after, printed⟩) ∧
        execAll rounds ss ⟨.root t, output⟩ = (result, ⟨.root after', printed⟩) ∧
          after.Agree names after' := by
  obtain ⟨result, after, printed, hs⟩ := exists_execAll_root rounds ss s output
  obtain ⟨result', after', printed', ht⟩ := exists_execAll_root rounds ss t output
  have hr :=
    execAll_respects (k := 0) rounds Scopes.simulates_agree hw hn ⟨.root s, output⟩ ⟨.root t, output⟩
    ⟨.root h, rfl⟩
  rw [hs, ht] at hr
  obtain ⟨hresult, hscopes, hprinted⟩ := hr
  cases hresult
  cases hprinted
  cases hscopes with
  | root hafter => exact ⟨result, after, after', printed, hs, ht, hafter⟩

theorem exists_declare_of_mem_exposesAll (hw : areWellShaped ss = true) (hx : x ∈ exposesAll ss) :
    ∃ t e, declare t e ∈ ss ∧ t.lexeme = x := by
  induction ss with
  | nil => cases hx
  | cons s ss ih =>
    simp only [areWellShaped, Bool.and_eq_true] at hw
    obtain hx | hx := List.mem_append.1 hx
    · cases hd : s.isDeclaration with
      | false =>
        rw [exposes_eq_nil hw.1 hd] at hx
        cases hx
      | true =>
        cases s with
        | declare t e => exact ⟨t, e, List.mem_cons_self, (List.mem_singleton.1 hx).symm⟩
        | _ => cases hd
    · obtain ⟨t, e, ht, he⟩ := ih hw.2 hx
      exact ⟨t, e, List.mem_cons_of_mem _ ht, he⟩

theorem execAll_keeps_bindings (hx : ∀ e ∈ expressionsAll ss, x ∉ e.targets) (hd : x ∉ exposesAll ss) :
    Keeps (State.bindings x) (execAll rounds ss) := by
  apply execAll_keeps_of_eval rounds (State.layered_each _) id
  · exact fun e he => Exec.eval_keeps_bindings (hx e he)
  · intro y hy v
    have hyx : y ≠ x := fun h => hd (h ▸ hy)
    exact Exec.define_keeps_bindings hyx v

theorem execAll_keeps_bound (hd : x ∉ exposesAll ss) :
    Keeps (State.each fun s => decide (x ∈ s.names)) (execAll rounds ss) := by
  apply execAll_keeps_of_eval rounds (State.layered_each _) id
  · intro e _ state
    have h := congrArg (List.map fun names => decide (x ∈ names)) (Exec.eval_keeps e state)
    simp only [State.declared, Scopes.declared, List.map_map] at h
    exact h
  · intro y hy v
    apply Exec.define_keeps_each
    intro s
    have hne : x ≠ y := fun h => hd (h.symm ▸ hy)
    rw [Scope.names_put]
    split <;> simp [hne]

end Stmt

/-- A program depends on and changes only the names it mentions, all of them identifiers of its
source. From global scopes that agree on these, and on any others, it comes to one result with one
output and to global scopes that again agree on them. A global that it neither assigns to, at any
depth, nor declares outside of all blocks keeps its value, and no name is bound or lost but those
that it declares there. -/
theorem parse_names_only (tokens : List Token) (rounds : Nat) (s : Scope) (output : String) :
    let program := (parse tokens).statements
    let run (s : Scope) := Stmt.execAll rounds program ⟨.root s, output⟩
    (∀ x ∈ Stmt.mentionedAll program, ∃ t ∈ tokens, t.kind = .identifier ∧ t.lexeme = x) ∧
      (∀ (names : String → Prop) (t : Scope), (∀ x ∈ Stmt.mentionedAll program, names x) →
        (∀ x, names x → s.get? x = t.get? x) → ∃ result after after' printed,
          run s = (result, ⟨.root after, printed⟩) ∧ run t = (result, ⟨.root after', printed⟩) ∧
            ∀ x, names x → after.get? x = after'.get? x) ∧
      ∃ result after printed, run s = (result, ⟨.root after, printed⟩) ∧
        ∀ x, (∀ t e, .declare t e ∈ program → t.lexeme ≠ x) →
          (x ∈ after.names ↔ x ∈ s.names) ∧
            ((∀ e ∈ Stmt.expressionsAll program, x ∉ e.targets) → after.get? x = s.get? x) := by
  intro program run
  have hw : Stmt.areWellShaped program = true := Grammar.areWellShaped_parse tokens
  refine ⟨Grammar.spells_parse tokens, fun names t hn hs => Stmt.execAll_agree rounds hw hn hs output,
    ?_⟩
  obtain ⟨result, after, printed, hafter⟩ := Stmt.exists_execAll_root rounds program s output
  refine ⟨result, after, printed, hafter, fun x hd => ?_⟩
  have hexposed : x ∉ Stmt.exposesAll program := fun hx => by
    obtain ⟨t, e, ht, hlexeme⟩ := Stmt.exists_declare_of_mem_exposesAll hw hx
    exact hd t e ht hlexeme
  refine ⟨?_, fun hx => ?_⟩
  · have hbound := Stmt.execAll_keeps_bound rounds hexposed ⟨.root s, output⟩
    rw [hafter] at hbound
    simpa [State.each, Scopes.each, Scopes.toList] using hbound
  · have hbindings := Stmt.execAll_keeps_bindings rounds hx hexposed ⟨.root s, output⟩
    rw [hafter] at hbindings
    simpa [State.bindings, State.each, Scopes.each, Scopes.toList] using hbindings

/-- A name that is bound in a block only, an assignment from inside of the block, and then the name
behind it: `{ var a = b; b = !a; print a; } var c = a;` -/
def shadowed : List Token :=
  let named (x : String) : Token := ⟨.identifier, x, .nil, 1⟩
  let bare := Grammar.bare
  [bare .leftBrace, bare .kwVar, named "a", bare .equal, named "b", bare .semicolon,
    named "b", bare .equal, bare .bang, named "a", bare .semicolon,
    bare .kwPrint, named "a", bare .semicolon, bare .rightBrace,
    bare .kwVar, named "c", bare .equal, named "a", bare .semicolon]

theorem parse_names_only_shadowed :
    let names := ["a", "b", "c"]
    let s : Scope := [("z", .nil), ("b", .bool true)]
    let t : Scope := [("b", .bool true)]
    let program := (parse shadowed).statements
    let result := .error (.error (.undefined ⟨.identifier, "a", .nil, 1⟩))
    (∀ x ∈ Stmt.mentionedAll program, x ∈ names) ∧ (∀ x, x ∈ names → s.get? x = t.get? x) ∧
      (∀ x, x ≠ "c" → ∀ t e, .declare t e ∈ program → t.lexeme ≠ x) ∧
      (∀ e ∈ Stmt.expressionsAll program, "z" ∉ e.targets) ∧ ∃ after after',
        Stmt.execAll 0 program ⟨.root s, ""⟩ = (result, ⟨.root after, "true\n"⟩) ∧
          Stmt.execAll 0 program ⟨.root t, ""⟩ = (result, ⟨.root after', "true\n"⟩) ∧
          (∀ x ∈ names, after.get? x = after'.get? x) ∧ after.get? "z" = some .nil ∧
            "a" ∉ after.names := by
  intro names s t program result
  let a : Token := ⟨.identifier, "a", .nil, 1⟩
  let b : Token := ⟨.identifier, "b", .nil, 1⟩
  let c : Token := ⟨.identifier, "c", .nil, 1⟩
  have hprogram : program = [.block [.declare a (.name b),
      .expression (.assign b (.unary (Grammar.bare .bang) (.name a))), .print (.name a)],
        .declare c (.name a)] := by rfl
  have hn : ∀ x ∈ Stmt.mentionedAll program, x ∈ names := by
    rw [hprogram]
    decide
  have hs : ∀ x, x ∈ names → s.get? x = t.get? x := by simp [names, s, t, Scope.get?]
  have hd : ∀ x, x ≠ "c" → ∀ t e, .declare t e ∈ program → t.lexeme ≠ x := by
    rw [hprogram]
    intro x hx t e ht
    simp only [List.mem_cons, reduceCtorEq, Stmt.declare.injEq, List.not_mem_nil, or_false,
      false_or] at ht
    rw [ht.1]
    exact hx.symm
  have hx : ∀ e ∈ Stmt.expressionsAll program, "z" ∉ e.targets := by
    rw [hprogram]
    simp [Stmt.expressionsAll, Stmt.expressions, Expr.targets, b]
  have hrun :
      Stmt.execAll 0 program ⟨.root s, ""⟩ =
        (result, ⟨.root [("z", .nil), ("b", .bool false)], "true\n"⟩) := by
    rfl
  obtain ⟨-, htwo, _, _, _, hafter, hone⟩ := parse_names_only shadowed 0 s ""
  obtain ⟨_, _, after', _, h, h', hagree⟩ := htwo (· ∈ names) t hn hs
  cases hrun.symm.trans hafter
  cases hrun.symm.trans h
  obtain ⟨hbound, -⟩ := hone "a" (hd "a" (by decide))
  obtain ⟨-, hkeeps⟩ := hone "z" (hd "z" (by decide))
  exact ⟨hn, hs, hd, hx, _, after', hrun, h', hagree, hkeeps hx,
    fun ha => absurd (hbound.1 ha) (by decide)⟩

end Lox
