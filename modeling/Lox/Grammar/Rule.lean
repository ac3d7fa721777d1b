import Lox.Problem

namespace Lox.Grammar

/-- Why no rule of the grammar goes on at a token. -/
inductive Fault
  | unmatched
  | expected (kind : Kind) (message : String)
  /-- What stands before this equals sign cannot be assigned to. -/
  | badTarget (equals : Token)

inductive Result (α : Type)
  | ok (value : α) (rest : List Token)
  | fail (fault : Fault) (rest : List Token)

/-- A rule sees only the tokens before the end of input. Where it fails, those that it has not
passed say which one is to blame and where to go on. -/
def Rule (α : Type) : Type := List Token → Result α

namespace Rule

variable {α β : Type}

instance : Monad Rule where
  pure a := fun ts => .ok a ts
  bind p f := fun ts => match p ts with
    | .ok a rest => f a rest
    | .fail fault rest => .fail fault rest

theorem pure_apply (a : α) (ts : List Token) : (pure a : Rule α) ts = .ok a ts := rfl

theorem bind_apply (p : Rule α) (f : α → Rule β) (ts : List Token) :
    (p >>= f) ts = match p ts with
      | .ok a rest => f a rest
      | .fail fault rest => .fail fault rest := rfl

def fail (fault : Fault) : Rule α := fun ts => .fail fault ts

def nextIs (kind : Kind) : Rule Bool
  | [] => .ok false []
  | t :: ts => .ok (t.kind == kind) (t :: ts)

def accept (accepted : Kind → Bool) : Rule (Option Token)
  | [] => .ok none []
  | t :: ts => if accepted t.kind then .ok (some t) ts else .ok none (t :: ts)

def expect (kind : Kind) (message : String) : Rule Token
  | [] => .fail (.expected kind message) []
  | t :: ts => if t.kind = kind then .ok t ts else .fail (.expected kind message) (t :: ts)

def unlessNext (kind : Kind) (p : Rule α) : Rule (Option α) := do
  if ← nextIs kind then pure none else some <$> p

variable {ts rest : List Token}

theorem bind_eq_ok {p : Rule α} {f : α → Rule β} {b : β} :
    (p >>= f) ts = .ok b rest ↔ ∃ a mid, p ts = .ok a mid ∧ f a mid = .ok b rest := by
  rw [bind_apply]
  cases p ts with
  | ok a mid =>
    constructor
    · intro h
      exact ⟨a, mid, rfl, h⟩
    · rintro ⟨_, _, h, hf⟩
      cases h
      exact hf
  | fail fault mid => simp

theorem pure_eq_ok {a b : α} : (pure a : Rule α) ts = .ok b rest ↔ a = b ∧ ts = rest := by
  simp [pure_apply]

theorem map_eq_ok {p : Rule α} {f : α → β} {b : β} :
    (f <$> p) ts = .ok b rest ↔ ∃ a, p ts = .ok a rest ∧ f a = b := by
  have h : (f <$> p) ts = (p >>= fun a => pure (f a)) ts := rfl
  simp only [h, bind_eq_ok, pure_eq_ok]
  constructor
  · rintro ⟨a, _, hp, hf, rfl⟩
    exact ⟨a, hp, hf⟩
  · rintro ⟨a, hp, hf⟩
    exact ⟨a, rest, hp, hf, rfl⟩

theorem fail_ne_ok {fault : Fault} {a : α} : (fail fault : Rule α) ts ≠ .ok a rest := by
  simp [fail]

theorem expect_eq_ok {kind : Kind} {message : String} {t : Token} :
    expect kind message ts = .ok t rest ↔ ts = t :: rest ∧ t.kind = kind := by
  cases ts with
  | nil => simp [expect]
  | cons u us =>
    by_cases hu : u.kind = kind
    · simp only [expect, hu, if_true, Result.ok.injEq, List.cons.injEq]
      constructor
      · rintro ⟨rfl, rfl⟩
        exact ⟨⟨rfl, rfl⟩, hu⟩
      · rintro ⟨⟨rfl, rfl⟩, _⟩
        exact ⟨rfl, rfl⟩
    · simp only [expect, hu, if_false, reduceCtorEq, List.cons.injEq, false_iff, not_and, and_imp]
      rintro rfl _
      exact hu

def NoneNext (kinds : Kind → Bool) (ts : List Token) : Prop := ∀ t ∈ ts.head?, kinds t.kind = false

theorem noneNext_nil {kinds : Kind → Bool} : NoneNext kinds [] := by simp [NoneNext]

theorem noneNext_cons {kinds : Kind → Bool} {t : Token} :
    NoneNext kinds (t :: ts) ↔ kinds t.kind = false := by simp [NoneNext]

theorem accept_eq_some {kinds : Kind → Bool} {t : Token} :
    accept kinds ts = .ok (some t) rest ↔ ts = t :: rest ∧ kinds t.kind = true := by
  cases ts with
  | nil => simp [accept]
  | cons u us => by_cases hu : kinds u.kind <;> grind [accept]

theorem accept_eq_none {kinds : Kind → Bool} :
    accept kinds ts = .ok none rest ↔ ts = rest ∧ NoneNext kinds ts := by
  cases ts with
  | nil => simp [accept, noneNext_nil]
  | cons u us => by_cases hu : kinds u.kind <;> grind [accept, noneNext_cons]

theorem unlessNext_eq_none {kind : Kind} {p : Rule α} :
    unlessNext kind p ts = .ok none rest ↔ ts = rest ∧ ∃ t ∈ ts.head?, t.kind = kind := by
  simp only [unlessNext, bind_eq_ok]
  cases ts with
  | nil => simp [nextIs, map_eq_ok]
  | cons u us => by_cases hu : u.kind = kind <;> simp [nextIs, hu, pure_eq_ok, map_eq_ok]

theorem unlessNext_eq_some {kind : Kind} {p : Rule α} {a : α} :
    unlessNext kind p ts = .ok (some a) rest ↔ NoneNext (· == kind) ts ∧ p ts = .ok a rest := by
  simp only [unlessNext, bind_eq_ok]
  cases ts with
  | nil => simp [nextIs, map_eq_ok, noneNext_nil]
  | cons u us => by_cases hu : u.kind = kind <;> simp [nextIs, hu, pure_eq_ok, map_eq_ok, noneNext_cons]

end Rule

end Lox.Grammar
