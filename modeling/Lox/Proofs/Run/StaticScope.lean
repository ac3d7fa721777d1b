import Lox.Proofs.Grammar.Acceptance
import Lox.Proofs.Grammar.Precedence
import Lox.Proofs.Run.Names
import Lox.Proofs.Run.Watched

namespace Lox

open Run

/-- The occurrences of names, each with the number of scopes outward to its binding if it has one.
-/
abbrev Resolution := List (Token × Option Nat)

def Expr.resolve (declared : Declared) (e : Expr) : Resolution :=
  e.occurrences.map fun t => (t, declared.distance? t.lexeme)

theorem Expr.length_resolve (declared : Declared) (e : Expr) :
    (e.resolve declared).length = e.occurrences.length := List.length_map _

namespace Stmt

mutual

/-- The walk keeps the names that each enclosing block has declared so far. -/
def resolve (declared : Declared) : Stmt → Resolution
  | expression e => e.resolve declared
  | print e => e.resolve declared
  | declare _ e => e.resolve declared
  | block ss => resolveAll ([] :: declared) ss
  | ifThen c s => c.resolve declared ++ resolve declared s
  | ifElse c s t => c.resolve declared ++ (resolve declared s ++ resolve declared t)
  | whileLoop c s => c.resolve declared ++ resolve declared s

def resolveAll (declared : Declared) : List Stmt → Resolution
  | [] => []
  | s :: ss => resolve declared s ++ resolveAll (s.extend declared) ss

end

mutual

theorem length_resolve (declared : Declared) (s : Stmt) :
    (s.resolve declared).length = s.occurrences.length := by
  match s with
  | expression e | print e | declare t e => exact e.length_resolve declared
  | block ss => exact length_resolveAll ([] :: declared) ss
  | ifThen c s | whileLoop c s =>
    simp only [resolve, occurrences, List.length_append, Expr.length_resolve, length_resolve declared s]
  | ifElse c s t =>
    simp only [resolve, occurrences, List.length_append, Expr.length_resolve, length_resolve declared s,
      length_resolve declared t]

theorem length_resolveAll (declared : Declared) (ss : List Stmt) :
    (resolveAll declared ss).length = (occurrencesAll ss).length := by
  match ss with
  | [] => rfl
  | s :: ss =>
    simp only [resolveAll, occurrencesAll, List.length_append, length_resolve declared s,
      length_resolveAll _ ss]

end

end Stmt

namespace Access

def Meets (a : Access) : Option Nat → Prop
  | some d => a.Reaches d
  | none => a.Fails

theorem Reaches.not_fails {a : Access} {d : Nat} (h : a.Reaches d) : ¬ a.Fails := by
  obtain ⟨_, s, _, _, hm⟩ := h
  unfold Fails
  split at hm
  · obtain ⟨v, _, hr⟩ := hm
    simp [hr]
  · obtain ⟨after, hr, _⟩ := hm
    simp [hr]

theorem meets_distance? (a : Access) : a.Meets (a.scopes.declared.distance? a.name.lexeme) := by
  cases h : a.scopes.declared.distance? a.name.lexeme with
  | none =>
    have hg := Scopes.get?_eq_none.2 h
    have ha : ∀ v, a.scopes.assign? a.name.lexeme v = none := fun v => Scopes.assign?_eq_none.2 h
    change a.Fails
    unfold Fails
    split
    · simp [Scopes.read, hg]
    · simp [Scopes.write, ha]
  | some d =>
    refine ⟨?_, ?_⟩
    · exact fun s hs => Scope.get?_eq_none.2 (Scopes.not_mem_of_distance? h s hs)
    · obtain ⟨s, w, hs, hw, hg⟩ := Scopes.get?_of_distance? h
      refine ⟨s, hs, by simp [hw], ?_⟩
      split
      · exact ⟨w, hw, by simp [Scopes.read, hg]⟩
      · next v _ =>
        obtain ⟨s', after, hs', ha, hl⟩ := Scopes.assign?_of_distance? v h
        have he : s' = s := Option.some.inj (hs'.symm.trans hs)
        exact ⟨after, by simp [Scopes.write, ha], he ▸ hl⟩

theorem fails_iff {a : Access} : a.Fails ↔ a.scopes.declared.distance? a.name.lexeme = none := by
  have hm := a.meets_distance?
  cases h : a.scopes.declared.distance? a.name.lexeme with
  | none =>
    rw [h] at hm
    exact ⟨fun _ => rfl, fun _ => hm⟩
  | some d =>
    rw [h] at hm
    simpa using Reaches.not_fails hm

def IsAt (answers : Resolution) (a : Access) : Prop :=
  answers[a.occurrence]? = some (a.name, a.scopes.declared.distance? a.name.lexeme)

end Access

section Parts

variable {answers p q : Resolution} {start : Nat}

theorem getElem?_of_part {x : Token × Option Nat} (h : [x] <+: answers.drop start) :
    answers[start]? = some x := by
  obtain ⟨rest, hr⟩ := h
  have h0 : (answers.drop start)[0]? = some x := by rw [← hr]; rfl
  simpa only [List.getElem?_drop, Nat.add_zero] using h0

theorem left_of_part (h : p ++ q <+: answers.drop start) : p <+: answers.drop start :=
  (List.prefix_append p q).trans h

theorem right_of_part (h : p ++ q <+: answers.drop start) : q <+: answers.drop (start + p.length) := by
  obtain ⟨rest, hr⟩ := h
  have hd := congrArg (List.drop p.length) hr
  rw [List.append_assoc, List.drop_left, List.drop_drop] at hd
  exact ⟨rest, hd⟩

theorem rest_of_expression {declared : Declared} {e : Expr}
    (h : e.resolve declared ++ q <+: answers.drop start) :
    q <+: answers.drop (start + e.occurrences.length) := by
  have hq := right_of_part h
  rwa [e.length_resolve] at hq

theorem rest_of_statement {declared : Declared} {s : Stmt}
    (h : s.resolve declared ++ q <+: answers.drop start) :
    q <+: answers.drop (start + s.occurrences.length) := by
  have hq := right_of_part h
  rwa [s.length_resolve] at hq

end Parts

namespace Watched

variable {σ α β : Type} {f : σ → Declared} {answers : Resolution} {declared after : Declared}

/-- From all states with these names, the accesses are as the answers say. -/
def Follows (f : σ → Declared) (answers : Resolution) (declared : Declared) (w : Watched σ α) : Prop :=
  ∀ s, f s = declared → ∀ a ∈ w.accesses s, a.IsAt answers

theorem follows_silent (p : Run σ α) : Follows f answers declared (silent p) :=
  fun _ _ _ ha => absurd ha List.not_mem_nil

theorem follows_pure (a : α) : Follows f answers declared (pure a) := follows_silent (pure a)

theorem Follows.andThen {w : Watched σ α} {g : α → Watched σ β} (hw : Follows f answers declared w)
    (hn : ∀ s a s', f s = declared → w.run s = (.ok a, s') → f s' = after)
    (hg : ∀ a, Follows f answers after (g a)) : Follows f answers declared (w >>= g) := by
  intro s hs b hb
  rw [accesses_bind, List.mem_append] at hb
  obtain hb | hb := hb
  · exact hw s hs b hb
  · cases hr : w.run s with
    | mk result s' =>
      rw [hr] at hb
      cases result with
      | error _ => cases hb
      | ok a => exact hg a s' (hn s a s' hs hr) b hb

theorem Follows.bind {w : Watched σ α} {g : α → Watched σ β} (hw : Follows f answers declared w)
    (hk : Keeps f w.run) (hg : ∀ a, Follows f answers declared (g a)) :
    Follows f answers declared (w >>= g) := by
  refine hw.andThen (fun s a s' hs hr => ?_) hg
  have h := hk s
  rw [hr] at h
  exact h.trans hs

end Watched

open Watched

theorem Expr.watch_follows {answers : Resolution} {declared : Declared} {e : Expr} {start : Nat}
    (h : e.resolve declared <+: answers.drop start) :
    Follows Scopes.declared answers declared (e.watch start) := by
  induction e generalizing start with
  | literal v => exact follows_pure v
  | name t =>
    intro scopes hs a ha
    subst hs
    rw [List.mem_singleton.1 ha]
    exact getElem?_of_part h
  | assign t e ih =>
    have h : e.resolve declared ++ [(t, declared.distance? t.lexeme)] <+: answers.drop start := by
      simpa only [resolve, occurrences, List.map_append, List.map_cons, List.map_nil] using h
    apply (ih (left_of_part h)).bind (e.watch_run start ▸ e.eval_keeps)
    intro v
    have hw : Follows Scopes.declared answers declared (writing (start + e.occurrences.length) t v) := by
      intro scopes hs a ha
      subst hs
      rw [List.mem_singleton.1 ha]
      exact getElem?_of_part (rest_of_expression h)
    exact hw.bind (keeps_update fun _ _ => Scopes.declared_of_write) fun _ => follows_pure v
  | unary t e ih =>
    apply (ih h).bind (e.watch_run start ▸ e.eval_keeps)
    intro v
    exact follows_silent _
  | binary a t b iha ihb =>
    have h : a.resolve declared ++ b.resolve declared <+: answers.drop start := by
      simpa only [resolve, occurrences, List.map_append] using h
    have hb := rest_of_expression h
    apply (iha (left_of_part h)).bind (a.watch_run start ▸ a.eval_keeps)
    intro v
    apply (ihb hb).bind (b.watch_run _ ▸ b.eval_keeps)
    intro w
    exact follows_silent _
  | logical a t b iha ihb =>
    have h : a.resolve declared ++ b.resolve declared <+: answers.drop start := by
      simpa only [resolve, occurrences, List.map_append] using h
    have hb := rest_of_expression h
    apply (iha (left_of_part h)).bind (a.watch_run start ▸ a.eval_keeps)
    intro v
    split
    · exact follows_pure v
    · exact ihb hb
  | grouping e ih => exact ih h

namespace Watched

variable {answers : Resolution} {declared : Declared}

theorem eval_follows {e : Expr} {start : Nat} (h : e.resolve declared <+: answers.drop start) :
    Follows State.declared answers declared (eval start e) :=
  fun state hs => Expr.watch_follows h state.scopes hs

theorem test_follows {e : Expr} {start : Nat} (h : e.resolve declared <+: answers.drop start) :
    Follows State.declared answers declared (test start e) :=
  (eval_follows h).bind (Exec.eval_keeps e) fun _ => follows_pure _

theorem Follows.inScope {w : Watched State Unit}
    (h : Follows State.declared answers ([] :: declared) w) :
    Follows State.declared answers declared w.inScope :=
  fun state hs => h { state with scopes := state.scopes.push } (congrArg _ hs)

theorem Follows.loop {condition : Watched State Bool} {body : Watched State Unit}
    (hc : Follows State.declared answers declared condition)
    (hkc : Keeps State.declared condition.run) (hb : Follows State.declared answers declared body)
    (hkb : Keeps State.declared body.run) (rounds : Nat) :
    Follows State.declared answers declared (loop condition body rounds) := by
  induction rounds with
  | zero => exact follows_silent _
  | succ rounds ih =>
    apply hc.bind hkc
    intro b
    split
    · exact hb.bind hkb fun _ => ih
    · exact follows_pure ()

end Watched

namespace Stmt

variable (rounds : Nat) {answers : Resolution}

mutual

theorem watch_follows {s : Stmt} (hw : s.isWellShaped = true) {declared : Declared} {start : Nat}
    (h : s.resolve declared <+: answers.drop start) :
    Follows State.declared answers declared (watch rounds start s) := by
  match s with
  | expression e =>
    apply (eval_follows h).bind (Exec.eval_keeps e)
    intro _
    exact follows_pure ()
  | print e =>
    apply (eval_follows h).bind (Exec.eval_keeps e)
    intro v
    exact follows_silent _
  | declare t e =>
    apply (eval_follows h).bind (Exec.eval_keeps e)
    intro v
    exact follows_silent _
  | block ss =>
    have hs : areWellShaped ss = true := by simpa only [isWellShaped] using hw
    exact (watchAll_follows hs h).inScope
  | ifThen c s =>
    simp only [isWellShaped, Bool.and_eq_true] at hw
    have hs := rest_of_expression h
    apply (test_follows (left_of_part h)).bind (Exec.test_keeps c)
    intro b
    split
    · exact watch_follows hw.2 hs
    · exact follows_pure ()
  | ifElse c s t =>
    simp only [isWellShaped, Bool.and_eq_true] at hw
    have hb := rest_of_expression h
    have ht := rest_of_statement hb
    apply (test_follows (left_of_part h)).bind (Exec.test_keeps c)
    intro b
    split
    · exact watch_follows hw.1.1.2 (left_of_part hb)
    · exact watch_follows hw.2 ht
  | whileLoop c s =>
    simp only [isWellShaped, Bool.and_eq_true, Bool.not_eq_true'] at hw
    have hs := rest_of_expression h
    have hk : Keeps State.declared (watch rounds (start + c.occurrences.length) s).run := by
      rw [watch_run]
      exact exec_keeps rounds hw.2 hw.1.2
    exact (test_follows (left_of_part h)).loop (Exec.test_keeps c) (watch_follows hw.2 hs) hk rounds

theorem watchAll_follows {ss : List Stmt} (hw : areWellShaped ss = true) {declared : Declared}
    {start : Nat} (h : resolveAll declared ss <+: answers.drop start) :
    Follows State.declared answers declared (watchAll rounds start ss) := by
  match ss with
  | [] => exact follows_pure ()
  | s :: ss =>
    simp only [areWellShaped, Bool.and_eq_true] at hw
    have hs := rest_of_statement h
    refine (watch_follows hw.1 (left_of_part h)).andThen (fun state u state' hd hr => ?_)
      fun _ => watchAll_follows hw.2 hs
    rw [watch_run] at hr
    rw [declared_of_exec rounds hw.1 hr, hd]

end

end Stmt

def State.fresh : State := ⟨.empty, ""⟩

/-- Whatever loops and branches a run takes, an access finds its binding as far outward as the one
walk through the program has said, and fails exactly if the walk found none. -/
theorem parse_scoping_static {tokens : List Token} (h : (parse tokens).errors = []) (rounds : Nat) :
    let program := (parse tokens).statements
    let answers := Stmt.resolveAll [[]] program
    let watched := Stmt.watchAll rounds 0 program
    watched.run = Stmt.execAll rounds program ∧
      (∀ a ∈ watched.accesses .fresh,
        ∃ answer, answers[a.occurrence]? = some (a.name, answer) ∧ a.Meets answer) ∧
      (∀ t, (Stmt.execAll rounds program .fresh).1 = .error (.error (.undefined t)) ↔
        ∃ a ∈ watched.accesses .fresh, answers[a.occurrence]? = some (t, none)) ∧
      ((∀ answer ∈ answers, answer.2 ≠ none) →
        ∀ t, (Stmt.execAll rounds program .fresh).1 ≠ .error (.error (.undefined t))) := by
  intro program answers watched
  have hw : Stmt.areWellShaped program = true := (Grammar.reads_of_parse h).isShaped
  have hrun : watched.run = Stmt.execAll rounds program := Stmt.watchAll_run rounds 0 program
  have hat : ∀ a ∈ watched.accesses .fresh, a.IsAt answers :=
    Stmt.watchAll_follows rounds hw (List.prefix_refl answers) .fresh rfl
  have hundefined : ∀ t, (Stmt.execAll rounds program .fresh).1 = .error (.error (.undefined t)) ↔
      ∃ a ∈ watched.accesses .fresh, answers[a.occurrence]? = some (t, none) := by
    intro t
    have hi := Stmt.watchAll_isHonest rounds 0 program .fresh t
    rw [Stmt.watchAll_run] at hi
    rw [hi]
    constructor
    · rintro ⟨a, ha, rfl, hf⟩
      refine ⟨a, ha, ?_⟩
      rw [hat a ha, Access.fails_iff.1 hf]
    · rintro ⟨a, ha, hn⟩
      rw [hat a ha, Option.some.injEq, Prod.mk.injEq] at hn
      exact ⟨a, ha, hn.1, Access.fails_iff.2 hn.2⟩
  refine ⟨hrun, fun a ha => ⟨_, hat a ha, a.meets_distance?⟩, hundefined, fun hall t ht => ?_⟩
  obtain ⟨a, _, hn⟩ := (hundefined t).1 ht
  exact hall _ (List.mem_of_getElem? hn) rfl

/-- A loop whose rounds share the outer variable and have one of their own, and then a name that is
not bound: `var a; while (!a) { var b = a; a = !b; } print c;` -/
def counting : List Token :=
  let named (x : String) : Token := ⟨.identifier, x, .nil, 1⟩
  let bare := Grammar.bare
  [bare .kwVar, named "a", bare .semicolon,
    bare .kwWhile, bare .leftParen, bare .bang, named "a", bare .rightParen, bare .leftBrace,
    bare .kwVar, named "b", bare .equal, named "a", bare .semicolon,
    named "a", bare .equal, bare .bang, named "b", bare .semicolon, bare .rightBrace,
    bare .kwPrint, named "c", bare .semicolon]

theorem counting_scoping :
    let program := (parse counting).statements
    let answers := Stmt.resolveAll [[]] program
    let accesses := (Stmt.watchAll 2 0 program).accesses .fresh
    (parse counting).errors = [] ∧ answers.map Prod.snd = [some 0, some 1, some 0, some 1, none] ∧
      accesses.map Access.occurrence = [0, 1, 2, 3, 0, 4] ∧
      ∀ a ∈ accesses, ∃ answer, answers[a.occurrence]? = some (a.name, answer) ∧ a.Meets answer := by
  have h : (parse counting).errors = [] := List.isEmpty_iff.1 (by decide +kernel)
  exact ⟨h, by decide +kernel, by decide +kernel, (parse_scoping_static h 2).2.1⟩

end Lox
