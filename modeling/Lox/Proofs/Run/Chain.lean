import Lox.Run.Scopes

namespace Lox

abbrev Declared := List (List String)

namespace Declared

/-- The number of scopes outward to the nearest one with the name. -/
def distance? (x : String) (declared : Declared) : Option Nat := declared.findIdx? fun names => x ∈ names

def add (x : String) : Declared → Declared
  | [] => []
  | names :: outer => (if x ∈ names then names else names ++ [x]) :: outer

theorem distance?_cons (x : String) (names : List String) (outer : Declared) :
    distance? x (names :: outer) = if x ∈ names then some 0 else (outer.distance? x).map (· + 1) := by
  simp [distance?, List.findIdx?_cons]

theorem tail_add (x : String) (declared : Declared) : (declared.add x).tail = declared.tail := by
  cases declared with
  | nil => rfl
  | cons names outer => rfl

end Declared

theorem Scope.get?_eq_none {x : String} {s : Scope} : s.get? x = none ↔ x ∉ s.names := by
  induction s with
  | nil => simp [get?, names]
  | cons b s ih =>
    obtain ⟨y, v⟩ := b
    by_cases hy : y = x
    · simp [get?, names, hy]
    · have hx : x ≠ y := fun h => hy h.symm
      simp only [get?, hy, if_false, ih, names, List.map_cons, List.mem_cons, hx, false_or]

theorem Scope.isSome_get? {x : String} {s : Scope} : (s.get? x).isSome = true ↔ x ∈ s.names := by
  rw [Option.isSome_iff_ne_none, Ne, get?_eq_none, Decidable.not_not]

namespace Scopes

def declared (scopes : Scopes) : Declared := scopes.toList.map Scope.names

@[simp] theorem declared_root (s : Scope) : (root s).declared = [s.names] := rfl

@[simp] theorem declared_nested (s : Scope) (outer : Scopes) :
    (nested s outer).declared = s.names :: outer.declared := rfl

theorem declared_ne_nil (scopes : Scopes) : scopes.declared ≠ [] := by
  cases scopes with
  | root s => simp
  | nested s outer => simp

theorem declared_pop {scopes : Scopes} (h : scopes.declared.tail ≠ []) :
    scopes.pop.declared = scopes.declared.tail := by
  cases scopes with
  | root s => exact absurd rfl h
  | nested s outer => rfl

theorem declared_define (x : String) (v : Value) (scopes : Scopes) :
    (scopes.define x v).declared = scopes.declared.add x := by
  cases scopes with
  | root s => simp [define, Declared.add, Scope.names_put]
  | nested s outer => simp [define, Declared.add, Scope.names_put]

variable {x : String} {v : Value} {scopes after : Scopes} {d : Nat}

theorem distance?_root {s : Scope} : (root s).declared.distance? x = some d ↔ x ∈ s.names ∧ d = 0 := by
  by_cases hx : x ∈ s.names
  · simp [Declared.distance?, hx, eq_comm]
  · simp [Declared.distance?, hx]

theorem distance?_nested {s : Scope} {outer : Scopes} :
    (nested s outer).declared.distance? x = some d ↔
      x ∈ s.names ∧ d = 0 ∨ x ∉ s.names ∧ ∃ e, outer.declared.distance? x = some e ∧ d = e + 1 := by
  by_cases hx : x ∈ s.names
  · simp [Declared.distance?_cons, hx, eq_comm]
  · simp only [declared_nested, Declared.distance?_cons, hx, if_false, Option.map_eq_some_iff, false_and,
      false_or, not_false_eq_true, true_and]
    simp only [eq_comm]

theorem not_mem_of_distance? (h : scopes.declared.distance? x = some d) :
    ∀ s ∈ scopes.toList.take d, x ∉ s.names := by
  intro s hs
  obtain ⟨hd, -, hn⟩ := List.findIdx?_eq_some_iff_getElem.1 h
  obtain ⟨i, hi, rfl⟩ := List.mem_iff_getElem.1 hs
  have hid : i < d := by
    rw [List.length_take] at hi
    omega
  simpa [declared] using hn i hid

theorem get?_of_distance? (h : scopes.declared.distance? x = some d) :
    ∃ s w, scopes.toList[d]? = some s ∧ s.get? x = some w ∧ scopes.get? x = some w := by
  induction scopes generalizing d with
  | root s =>
    obtain ⟨hx, rfl⟩ := distance?_root.1 h
    obtain ⟨w, hw⟩ := Option.isSome_iff_exists.1 (Scope.isSome_get?.2 hx)
    exact ⟨s, w, rfl, hw, hw⟩
  | nested s outer ih =>
    obtain ⟨hx, rfl⟩ | ⟨hx, e, he, rfl⟩ := distance?_nested.1 h
    · obtain ⟨w, hw⟩ := Option.isSome_iff_exists.1 (Scope.isSome_get?.2 hx)
      exact ⟨s, w, rfl, hw, by simp [get?, hw]⟩
    · have hn := Scope.get?_eq_none.2 hx
      obtain ⟨s', w, hs, hw, hg⟩ := ih he
      exact ⟨s', w, hs, hw, by simp [get?, hn, hg]⟩

theorem get?_eq_none : scopes.get? x = none ↔ scopes.declared.distance? x = none := by
  induction scopes with
  | root s => simp [get?, Scope.get?_eq_none, Declared.distance?]
  | nested s outer ih =>
    by_cases hx : x ∈ s.names
    · have hs := Scope.isSome_get?.2 hx
      simp [get?, Declared.distance?_cons, hx, ← Option.not_isSome_iff_eq_none, hs]
    · have hn := Scope.get?_eq_none.2 hx
      simp [get?, Declared.distance?_cons, hx, hn, ih]

theorem assign?_of_distance? (v : Value) (h : scopes.declared.distance? x = some d) :
    ∃ s after, scopes.toList[d]? = some s ∧ scopes.assign? x v = some after ∧
      after.toList = scopes.toList.set d (s.put x v) := by
  induction scopes generalizing d with
  | root s =>
    obtain ⟨hx, rfl⟩ := distance?_root.1 h
    have hs := Scope.isSome_get?.2 hx
    exact ⟨s, root (s.put x v), rfl, by simp [assign?, hs], rfl⟩
  | nested s outer ih =>
    obtain ⟨hx, rfl⟩ | ⟨hx, e, he, rfl⟩ := distance?_nested.1 h
    · have hs := Scope.isSome_get?.2 hx
      exact ⟨s, nested (s.put x v) outer, rfl, by simp [assign?, hs], rfl⟩
    · have hn := Scope.get?_eq_none.2 hx
      obtain ⟨s', after, hs, ha, hl⟩ := ih he
      exact ⟨s', nested s after, hs, by simp [assign?, hn, ha], by simp [toList, hl]⟩

theorem assign?_eq_none : scopes.assign? x v = none ↔ scopes.declared.distance? x = none := by
  induction scopes with
  | root s => by_cases hx : x ∈ s.names <;> simp [assign?, Scope.isSome_get?, Declared.distance?, hx]
  | nested s outer ih =>
    by_cases hx : x ∈ s.names <;> simp [assign?, Scope.isSome_get?, Declared.distance?_cons, hx, ih]

theorem declared_of_assign? (h : scopes.assign? x v = some after) :
    after.declared = scopes.declared := by
  induction scopes generalizing after with
  | root s =>
    by_cases hx : x ∈ s.names
    · simp only [assign?, Scope.isSome_get?, hx, if_true, Option.some.injEq] at h
      simp [← h, Scope.names_put, hx]
    · simp [assign?, Scope.isSome_get?, hx] at h
  | nested s outer ih =>
    by_cases hx : x ∈ s.names
    · simp only [assign?, Scope.isSome_get?, hx, if_true, Option.some.injEq] at h
      simp [← h, Scope.names_put, hx]
    · simp only [assign?, Scope.isSome_get?, hx, if_false, Option.map_eq_some_iff] at h
      obtain ⟨outer', ho, rfl⟩ := h
      simp [ih ho]

end Scopes

end Lox
