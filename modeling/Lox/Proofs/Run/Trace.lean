import Mathlib.Data.List.Nodup
import Lox.Run.Evaluate
import Lox.Proofs.Run.Chain

namespace Lox.Trace

inductive Op
  | push
  | pop
  | define (name : String) (value : Value)
  | assign (name : Token) (value : Value)
  | get (name : Token)

/-- Only `get` gives a value. -/
def Op.apply : Op → Run Scopes (Option Value)
  | push => fun scopes => (.ok none, scopes.push)
  | pop => fun scopes => (.ok none, scopes.pop)
  | define x v => fun scopes => (.ok none, scopes.define x v)
  | assign t v => do
    .update (Scopes.write t v)
    pure none
  | get t => do
    let v ← .lookup (Scopes.read t)
    pure (some v)

/-- What a history of operations makes of one new scope. Histories have the latest operation first.
-/
def chain : List Op → Scopes
  | [] => .empty
  | op :: past => (op.apply (chain past)).2

def leave : List Nat → List Nat
  | _ :: c :: cs => c :: cs
  | cs => cs

/-- The scopes that are live, the innermost first. Each goes by the number of operations up to the
one that opened it. -/
def live : List Op → List Nat
  | [] => [0]
  | .push :: past => (past.length + 1) :: live past
  | .pop :: past => leave (live past)
  | _ :: past => live past

def defines (c : Nat) (x : String) : List Op → Bool
  | [] => false
  | .define y _ :: past => y = x ∧ (live past).head? = some c ∨ defines c x past
  | _ :: past => defines c x past

/-- The innermost live scope with a definition of the name. -/
def owner (x : String) (past : List Op) : Option Nat := (live past).find? fun c => defines c x past

def sets? (c : Nat) (x : String) (past : List Op) : Op → Option Value
  | .define y v => if y = x ∧ (live past).head? = some c then some v else none
  | .assign t v => if t.lexeme = x ∧ owner x past = some c then some v else none
  | _ => none

/-- The value to which a name was set last in a scope. -/
def latest (c : Nat) (x : String) : List Op → Option Value
  | [] => none
  | op :: past => (sets? c x past op).or (latest c x past)

theorem leave_sublist (cs : List Nat) : (leave cs).Sublist cs := by
  unfold leave
  split
  · exact List.sublist_cons_self _ _
  · exact List.Sublist.refl _

theorem leave_cons {c : Nat} {cs : List Nat} (h : cs ≠ []) : leave (c :: cs) = cs := by
  cases cs with
  | nil => exact absurd rfl h
  | cons d ds => rfl

variable {past : List Op} {c : Nat} {x : String}

theorem live_ne_nil (past : List Op) : live past ≠ [] := by
  induction past with
  | nil => simp [live]
  | cons op past ih =>
    cases op with
    | push => simp [live]
    | pop =>
      rw [live]
      unfold leave
      split
      · simp
      · exact ih
    | define | assign | get => exact ih

theorem le_length_of_mem_live (h : c ∈ live past) : c ≤ past.length := by
  induction past with
  | nil => simpa [live] using h
  | cons op past ih =>
    rw [List.length_cons]
    cases op with
    | push =>
      obtain rfl | h := List.mem_cons.1 h
      · exact Nat.le_refl _
      · have := ih h
        omega
    | pop =>
      have := ih ((leave_sublist _).subset h)
      omega
    | define | assign | get =>
      have := ih h
      omega

theorem nodup_live (past : List Op) : (live past).Nodup := by
  induction past with
  | nil => exact List.nodup_singleton 0
  | cons op past ih =>
    cases op with
    | push =>
      refine List.nodup_cons.2 ⟨fun h => ?_, ih⟩
      have := le_length_of_mem_live h
      omega
    | pop => exact ih.sublist (leave_sublist _)
    | define | assign | get => exact ih

theorem mem_live_of_head? (h : (live past).head? = some c) : c ∈ live past := List.mem_of_mem_head? h

theorem mem_live_of_owner (h : owner x past = some c) : c ∈ live past := List.mem_of_find?_eq_some h

theorem defines_of_length_lt (h : past.length < c) : defines c x past = false := by
  induction past with
  | nil => rfl
  | cons op past ih =>
    rw [List.length_cons] at h
    have hlive : c ∉ live past := fun hm => by
      have := le_length_of_mem_live hm
      omega
    cases op with
    | define y v =>
      have hh : (live past).head? ≠ some c := fun hh => hlive (mem_live_of_head? hh)
      simp [defines, hh, ih (by omega)]
    | push | pop | assign | get => exact ih (by omega)

theorem latest_of_length_lt (h : past.length < c) : latest c x past = none := by
  induction past with
  | nil => rfl
  | cons op past ih =>
    rw [List.length_cons] at h
    have hlive : c ∉ live past := fun hm => by
      have := le_length_of_mem_live hm
      omega
    have hs : sets? c x past op = none := by
      cases op with
      | define y v => exact if_neg fun hh => hlive (mem_live_of_head? hh.2)
      | assign t v => exact if_neg fun hh => hlive (mem_live_of_owner hh.2)
      | push | pop | get => rfl
    rw [latest, hs, ih (by omega), Option.or_none]

/-- The scope binds what was set in it and has the names that were defined in it. -/
structure Agrees (past : List Op) (c : Nat) (s : Scope) : Prop where
  get? : ∀ x, s.get? x = latest c x past
  mem_names : ∀ x, x ∈ s.names ↔ defines c x past = true

theorem agrees_new (h : past.length < c) : Agrees past c [] where
  get? _ := (latest_of_length_lt h).symm
  mem_names x := by simp [Scope.names, defines_of_length_lt h]

theorem Agrees.cons {s : Scope} {op : Op} (h : Agrees past c s) (hs : ∀ x, sets? c x past op = none)
    (hd : ∀ x, defines c x (op :: past) = defines c x past) : Agrees (op :: past) c s where
  get? x := by rw [latest, hs, Option.none_or, h.get?]
  mem_names x := by rw [h.mem_names, hd]

theorem Agrees.put {s : Scope} {op : Op} {v : Value} (h : Agrees past c s)
    (hs : ∀ y, sets? c y past op = if x = y then some v else none)
    (hd : ∀ y, defines c y (op :: past) = (decide (x = y) || defines c y past)) :
    Agrees (op :: past) c (s.put x v) where
  get? y := by
    rw [Scope.get?_put, latest, hs, h.get?]
    split <;> rfl
  mem_names y := by
    have hm := h.mem_names y
    rw [Scope.names_put, hd]
    by_cases hx : x ∈ s.names <;> by_cases hy : x = y <;> grind

/-- The live scopes are those of the chain. -/
structure Follows (past : List Op) (scopes : Scopes) : Prop where
  length_eq : scopes.toList.length = (live past).length
  agrees : ∀ (i c : Nat) (s : Scope), (live past)[i]? = some c → scopes.toList[i]? = some s →
    Agrees past c s

theorem assign_apply (t : Token) (v : Value) (scopes : Scopes) : (Op.assign t v).apply scopes =
    match scopes.assign? t.lexeme v with
    | some after => (.ok none, after)
    | none => (.error (.error (.undefined t)), scopes) := by
  simp only [Op.apply, Run.bind_apply, Run.update, Scopes.write]
  cases scopes.assign? t.lexeme v <;> rfl

theorem get_apply (t : Token) (scopes : Scopes) : (Op.get t).apply scopes =
    match scopes.get? t.lexeme with
    | some v => (.ok (some v), scopes)
    | none => (.error (.error (.undefined t)), scopes) := by
  simp only [Op.apply, Run.bind_apply, Run.lookup, Scopes.read]
  cases scopes.get? t.lexeme <;> rfl

variable {scopes : Scopes}

theorem Follows.distance? (h : Follows past scopes) (x : String) :
    scopes.declared.distance? x = (live past).findIdx? fun c => defines c x past := by
  have hmap :
      scopes.toList.map (fun s => decide (x ∈ s.names)) = (live past).map fun c => defines c x past := by
    refine List.ext_getElem (by simp [h.length_eq]) fun i hi hi' => ?_
    rw [List.length_map] at hi hi'
    have ha := h.agrees i _ _ (List.getElem?_eq_getElem hi') (List.getElem?_eq_getElem hi)
    simp [ha.mem_names]
  calc scopes.declared.distance? x
      = (scopes.toList.map fun s => decide (x ∈ s.names)).findIdx? id := by
        rw [Declared.distance?, Scopes.declared, List.findIdx?_map, List.findIdx?_map]
        rfl
    _ = (live past).findIdx? fun c => defines c x past := by rw [hmap, List.findIdx?_map]; rfl

theorem Follows.distance?_of_owner (h : Follows past scopes) (ho : owner x past = some c) :
    ∃ d, scopes.declared.distance? x = some d ∧ (live past)[d]? = some c := by
  rw [owner, List.find?_eq_bind_findIdx?_getElem?, ← h.distance?, Option.bind_eq_some_iff] at ho
  exact ho

theorem owner_eq_none : owner x past = none ↔ ∀ c ∈ live past, defines c x past = false := by
  simp [owner]

theorem Follows.distance?_eq_none (h : Follows past scopes) :
    scopes.declared.distance? x = none ↔ owner x past = none := by
  rw [h.distance?, owner_eq_none, List.findIdx?_eq_none_iff]

theorem follows_nil : Follows [] (chain []) where
  length_eq := rfl
  agrees i c s hc hs := by
    have hi : i = 0 := by
      obtain ⟨hi, -⟩ := List.getElem?_eq_some_iff.1 hs
      simpa [chain, Scopes.empty, Scopes.toList] using hi
    subst hi
    cases hc
    cases hs
    exact ⟨fun _ => rfl, fun x => by simp [Scope.names, defines]⟩

theorem Follows.push (h : Follows past scopes) : Follows (.push :: past) scopes.push where
  length_eq := congrArg (· + 1) h.length_eq
  agrees i c s hc hs := by
    have hkeep : ∀ {s : Scope}, Agrees past c s → Agrees (.push :: past) c s := fun ha =>
      ha.cons (fun _ => rfl) fun _ => rfl
    cases i with
    | zero =>
      cases hc
      cases hs
      exact hkeep (agrees_new (Nat.lt_succ_self _))
    | succ i => exact hkeep (h.agrees i c s hc hs)

theorem Follows.pop (h : Follows past scopes) : Follows (.pop :: past) scopes.pop := by
  have hkeep : ∀ {c : Nat} {s : Scope}, Agrees past c s → Agrees (.pop :: past) c s := fun ha =>
    ha.cons (fun _ => rfl) fun _ => rfl
  obtain ⟨d, ds, hlive⟩ := List.exists_cons_of_ne_nil (live_ne_nil past)
  have hlength := h.length_eq
  have hagrees := h.agrees
  rw [hlive] at hlength hagrees
  cases scopes with
  | root s =>
    obtain rfl : ds = [] := List.length_eq_zero_iff.1 (Nat.succ.inj hlength).symm
    have hl : live (.pop :: past) = [d] := by rw [live, hlive]; rfl
    exact ⟨by rw [hl]; rfl, fun i c s hc hs => hkeep (hagrees i c s (hl ▸ hc) hs)⟩
  | nested s outer =>
    have hds : outer.toList.length = ds.length := Nat.succ.inj hlength
    have hne : ds ≠ [] := by
      rintro rfl
      exact absurd (List.map_eq_nil_iff.2 (List.length_eq_zero_iff.1 hds)) outer.declared_ne_nil
    have hl : live (.pop :: past) = ds := by rw [live, hlive, leave_cons hne]
    exact ⟨by rw [hl]; exact hds, fun i c s hc hs => hkeep (hagrees (i + 1) c s (hl ▸ hc) hs)⟩

theorem toList_define (x : String) (v : Value) (scopes : Scopes) :
    ∃ s outer, scopes.toList = s :: outer ∧ (scopes.define x v).toList = s.put x v :: outer := by
  cases scopes with
  | root s => exact ⟨s, [], rfl, rfl⟩
  | nested s outer => exact ⟨s, outer.toList, rfl, rfl⟩

theorem Follows.define (h : Follows past scopes) (x : String) (v : Value) :
    Follows (.define x v :: past) (scopes.define x v) := by
  obtain ⟨s, outer, hs, hd⟩ := toList_define x v scopes
  obtain ⟨d, ds, hlive⟩ := List.exists_cons_of_ne_nil (live_ne_nil past)
  have hlength := h.length_eq
  have hagrees := h.agrees
  have hnodup := nodup_live past
  rw [hlive] at hlength hagrees hnodup
  have hl : live (.define x v :: past) = d :: ds := hlive
  refine ⟨by rw [hl, hd, ← hlength, hs]; rfl, fun i c s' hc hs' => ?_⟩
  rw [hl] at hc
  rw [hd] at hs'
  rw [hs] at hagrees
  cases i with
  | zero =>
    cases hc
    cases hs'
    have hput := hagrees 0 d s rfl rfl
    exact hput.put (fun y => by simp [sets?, hlive]) fun y => by simp [defines, hlive]
  | succ i =>
    -- the definition is one of the innermost scope, and this is another
    have hne : d ≠ c := fun he => (List.nodup_cons.1 hnodup).1 (he ▸ List.mem_of_getElem? hc)
    have hkeep := hagrees (i + 1) c s' hc hs'
    exact hkeep.cons (fun y => by simp [sets?, hlive, hne]) fun y => by simp [defines, hlive, hne]

theorem Follows.assign (h : Follows past scopes) (t : Token) (v : Value) :
    Follows (.assign t v :: past) ((Op.assign t v).apply scopes).2 := by
  have hl : live (.assign t v :: past) = live past := rfl
  rw [assign_apply]
  cases ho : owner t.lexeme past with
  | none =>
    have ha : scopes.assign? t.lexeme v = none := Scopes.assign?_eq_none.2 (h.distance?_eq_none.2 ho)
    rw [ha]
    refine ⟨h.length_eq, fun i c s hc hs => (h.agrees i c s hc hs).cons (fun y => ?_) fun y => rfl⟩
    exact if_neg fun he => by
      rw [← he.1, ho] at he
      cases he.2
  | some d =>
    obtain ⟨k, hk, hd⟩ := h.distance?_of_owner ho
    obtain ⟨s, after, hs, ha, hset⟩ := Scopes.assign?_of_distance? v hk
    rw [ha]
    refine ⟨by simp [hset, h.length_eq, hl], fun i c s' hc hs' => ?_⟩
    simp only [hset] at hs'
    by_cases hi : i = k
    · subst hi
      obtain rfl : c = d := Option.some.inj (hc.symm.trans hd)
      have hlt : i < scopes.toList.length := (List.getElem?_eq_some_iff.1 hs).1
      obtain rfl : s.put t.lexeme v = s' := by simpa [hlt] using hs'
      have hput := h.agrees i c s hc hs
      have hdefined : defines c t.lexeme past = true :=
        List.find?_some (p := fun c => defines c t.lexeme past) ho
      refine hput.put (fun y => ?_) fun y => ?_
      · by_cases hy : t.lexeme = y
        · subst hy
          simp [sets?, ho]
        · simp [sets?, hy]
      · by_cases hy : t.lexeme = y
        · subst hy
          simp [defines, hdefined]
        · simp [defines, hy]
    · rw [List.getElem?_set_ne (Ne.symm hi)] at hs'
      have hne : d ≠ c := by
        rintro rfl
        have hlt : i < (live past).length := (List.getElem?_eq_some_iff.1 hc).1
        exact hi ((List.getElem?_inj hlt (nodup_live past)).1 (hc.trans hd.symm))
      refine (h.agrees i c s' hc hs').cons (fun y => if_neg fun he => hne ?_) fun y => rfl
      rw [← he.1, ho] at he
      exact Option.some.inj he.2

theorem Follows.get (h : Follows past scopes) (t : Token) :
    Follows (.get t :: past) ((Op.get t).apply scopes).2 := by
  have hs : ((Op.get t).apply scopes).2 = scopes := by
    rw [get_apply]
    cases scopes.get? t.lexeme <;> rfl
  rw [hs]
  exact ⟨h.length_eq, fun i c s hc hs => (h.agrees i c s hc hs).cons (fun _ => rfl) fun _ => rfl⟩

theorem follows_chain (past : List Op) : Follows past (chain past) := by
  induction past with
  | nil => exact follows_nil
  | cons op past ih =>
    cases op with
    | push => exact ih.push
    | pop => exact ih.pop
    | define x v => exact ih.define x v
    | assign t v => exact ih.assign t v
    | get t => exact ih.get t

/-- Operations in the innermost scope and in scopes that they open and close again. -/
inductive Closed : List Op → Prop
  | nil : Closed []
  | define {x : String} {v : Value} {past : List Op} (h : Closed past) : Closed (.define x v :: past)
  | assign {t : Token} {v : Value} {past : List Op} (h : Closed past) : Closed (.assign t v :: past)
  | get {t : Token} {past : List Op} (h : Closed past) : Closed (.get t :: past)
  | scope {inner past : List Op} (hi : Closed inner) (h : Closed past) :
      Closed (.pop :: inner ++ .push :: past)

theorem live_pop_push (past : List Op) : leave (live (.push :: past)) = live past :=
  leave_cons (live_ne_nil past)

theorem Closed.live_append {inner : List Op} (h : Closed inner) (past : List Op) :
    live (inner ++ past) = live past := by
  induction h generalizing past with
  | nil => rfl
  | define _ ih | assign _ ih | get _ ih => exact ih past
  | @scope inner before _ _ ihi ih =>
    calc live (.pop :: inner ++ .push :: before ++ past)
        = leave (live (inner ++ (.push :: (before ++ past)))) := by simp [live]
      _ = live past := by rw [ihi, live_pop_push, ih]

def Reassigned (c : Nat) (x : String) (ops past : List Op) : Prop :=
  ∃ later t v before, ops = later ++ .assign t v :: before ∧ t.lexeme = x ∧
    owner x (before ++ past) = some c

theorem Reassigned.before {ops : List Op} (h : Reassigned c x ops past) (later : List Op) :
    Reassigned c x (later ++ ops) past := by
  obtain ⟨later', t, v, before, rfl, hx, ho⟩ := h
  exact ⟨later ++ later', t, v, before, by simp, hx, ho⟩

theorem Reassigned.after {ops before : List Op} (h : Reassigned c x ops (before ++ past)) :
    Reassigned c x (ops ++ before) past := by
  obtain ⟨later, t, v, before', rfl, hx, ho⟩ := h
  exact ⟨later, t, v, before' ++ before, by simp, hx, by rwa [List.append_assoc]⟩

theorem head?_live_ne (h : c ∈ (live past).tail) : (live past).head? ≠ some c := by
  have hn := nodup_live past
  cases hl : live past with
  | nil => simp
  | cons d ds =>
    rw [hl] at h hn
    rintro ⟨⟩
    exact (List.nodup_cons.1 hn).1 h

theorem Closed.latest_append {inner : List Op} (h : Closed inner) (past : List Op) {c : Nat} {x : String}
    (hc : c ∈ (live past).tail) (ha : ¬ Reassigned c x inner past) :
    latest c x (inner ++ past) = latest c x past := by
  induction h generalizing past with
  | nil => rfl
  | @define y v before h ih =>
    have hs : sets? c x (before ++ past) (.define y v) = none := if_neg fun he => by
      rw [h.live_append] at he
      exact head?_live_ne hc he.2
    rw [List.cons_append, latest, hs, Option.none_or, ih past hc fun hr => ha (hr.before [_])]
  | @assign t v before h ih =>
    have hs : sets? c x (before ++ past) (.assign t v) = none :=
      if_neg fun he => ha ⟨[], t, v, before, rfl, he.1, he.2⟩
    rw [List.cons_append, latest, hs, Option.none_or, ih past hc fun hr => ha (hr.before [_])]
  | @get t before h ih => exact ih past hc fun hr => ha (hr.before [_])
  | @scope inner before _ h ihi ih =>
    have hinner : c ∈ (live (.push :: (before ++ past))).tail := by
      change c ∈ live (before ++ past)
      rw [h.live_append]
      exact List.mem_of_mem_tail hc
    have hi : latest c x (inner ++ .push :: (before ++ past)) = latest c x (.push :: (before ++ past)) :=
      ihi (.push :: (before ++ past)) hinner fun hr => ha (hr.after.before [.pop])
    have hb : latest c x (before ++ past) = latest c x past :=
      ih past hc fun hr => ha ((hr.before [.push]).before (.pop :: inner))
    calc latest c x (.pop :: inner ++ .push :: before ++ past)
        = latest c x (inner ++ .push :: (before ++ past)) := by simp [latest, sets?]
      _ = latest c x past := by rw [hi, ← hb]; rfl

def bound (i : Nat) (x : String) (scopes : Scopes) : Option Value :=
  scopes.toList[i]?.bind (Scope.get? x)

theorem Follows.bound_eq (h : Follows past scopes) {i : Nat} (hc : (live past)[i]? = some c)
    (x : String) :
    bound i x scopes = latest c x past := by
  have hi : i < scopes.toList.length := h.length_eq ▸ (List.getElem?_eq_some_iff.1 hc).1
  have hs := List.getElem?_eq_getElem hi
  rw [bound, hs, Option.bind_some, (h.agrees i c _ hc hs).get?]

theorem Follows.bound_eq_none (h : Follows past scopes) {i : Nat} (hc : (live past)[i]? = none)
    (x : String) :
    bound i x scopes = none := by
  have hi : scopes.toList[i]? = none := by
    rw [List.getElem?_eq_none_iff] at hc ⊢
    exact h.length_eq ▸ hc
  rw [bound, hi, Option.bind_none]

/-- What a chain has to do with the operations that made it. -/
structure Obeys (past : List Op) : Prop where
  /-- A name has the value that was set last in its owner. -/
  get : ∀ t c, owner t.lexeme past = some c → ∃ v, latest c t.lexeme past = some v ∧
    (Op.get t).apply (chain past) = (.ok (some v), chain past)
  get_fails : ∀ t, ((Op.get t).apply (chain past)).1 = .error (.error (.undefined t)) ↔
    ∀ c ∈ live past, defines c t.lexeme past = false
  assign_fails : ∀ t v, ((Op.assign t v).apply (chain past)).1 = .error (.error (.undefined t)) ↔
    ∀ c ∈ live past, defines c t.lexeme past = false
  /-- Whatever fails changes nothing, and nothing fails but for a name without a definition. -/
  failure : ∀ op h, ((Op.apply op) (chain past)).1 = .error h →
    chain (op :: past) = chain past ∧ ∃ t, h = .error (.undefined t) ∧ owner t.lexeme past = none
  /-- An assignment changes one binding, which there was before. -/
  assign : ∀ t v c, owner t.lexeme past = some c → ((Op.assign t v).apply (chain past)).1 = .ok none ∧
    ∃ i, (live past)[i]? = some c ∧ (bound i t.lexeme (chain past)).isSome ∧ ∀ j y,
      bound j y (chain (.assign t v :: past)) =
        if j = i ∧ y = t.lexeme then some v else bound j y (chain past)
  /-- What is done in a scope until it is closed leaves alone what is bound outside, but for its
  assignments. -/
  frame : ∀ inner, Closed inner →
    (chain (.pop :: inner ++ .push :: past)).toList.length = (chain past).toList.length ∧
      ∀ i c x, (live past)[i]? = some c → ¬ Reassigned c x inner (.push :: past) →
        bound i x (chain (.pop :: inner ++ .push :: past)) = bound i x (chain past)

theorem get_of_owner {t : Token} (ho : owner t.lexeme past = some c) :
    ∃ v, latest c t.lexeme past = some v ∧
    (Op.get t).apply (chain past) = (.ok (some v), chain past) := by
  obtain ⟨d, hd, hc⟩ := (follows_chain past).distance?_of_owner ho
  obtain ⟨s, v, hs, hv, hg⟩ := Scopes.get?_of_distance? hd
  refine ⟨v, ?_, by rw [get_apply, hg]⟩
  rw [← ((follows_chain past).agrees d c s hc hs).get?, hv]

theorem get_of_no_owner {t : Token} (ho : owner t.lexeme past = none) :
    (Op.get t).apply (chain past) = (.error (.error (.undefined t)), chain past) := by
  rw [get_apply, Scopes.get?_eq_none.2 ((follows_chain past).distance?_eq_none.2 ho)]

theorem assign_of_no_owner {t : Token} (v : Value) (ho : owner t.lexeme past = none) :
    (Op.assign t v).apply (chain past) = (.error (.error (.undefined t)), chain past) := by
  rw [assign_apply, Scopes.assign?_eq_none.2 ((follows_chain past).distance?_eq_none.2 ho)]

theorem assign_of_owner {t : Token} (v : Value) (ho : owner t.lexeme past = some c) :
    ((Op.assign t v).apply (chain past)).1 = .ok none := by
  obtain ⟨d, hd, -⟩ := (follows_chain past).distance?_of_owner ho
  obtain ⟨s, after, -, ha, -⟩ := Scopes.assign?_of_distance? v hd
  rw [assign_apply, ha]

theorem bound_assign {t : Token} (v : Value) (ho : owner t.lexeme past = some c) :
    ∃ i, (live past)[i]? = some c ∧ (bound i t.lexeme (chain past)).isSome ∧ ∀ j y,
      bound j y (chain (.assign t v :: past)) = if j = i ∧ y = t.lexeme then
        some v else bound j y (chain past) := by
  have hf := follows_chain past
  have hf' := follows_chain (.assign t v :: past)
  obtain ⟨i, -, hi⟩ := hf.distance?_of_owner ho
  obtain ⟨w, hw, -⟩ := get_of_owner ho
  refine ⟨i, hi, by rw [hf.bound_eq hi, hw]; rfl, fun j y => ?_⟩
  cases hj : (live past)[j]? with
  | none =>
    have hji : j ≠ i := by
      rintro rfl
      rw [hi] at hj
      cases hj
    simp [hf.bound_eq_none hj, hf'.bound_eq_none hj, hji]
  | some d =>
    have hlt : i < (live past).length := (List.getElem?_eq_some_iff.1 hi).1
    have hji : j = i ↔ d = c := by
      rw [eq_comm, ← List.getElem?_inj hlt (nodup_live past), hi, hj, Option.some.injEq, eq_comm]
    rw [hf.bound_eq hj, hf'.bound_eq hj, latest]
    by_cases hy : y = t.lexeme
    · subst hy
      by_cases hd : d = c
      · simp [sets?, ho, hji, hd]
      · simp [sets?, ho, hji, hd, Ne.symm hd]
    · simp [sets?, hy, Ne.symm hy]

theorem chain_of_failure {op : Op} {h : Halt} (hh : (op.apply (chain past)).1 = .error h) :
    chain (op :: past) = chain past ∧ ∃ t, h = .error (.undefined t) ∧ owner t.lexeme past = none := by
  have hfail : ∀ t : Token, op.apply (chain past) = (.error (.error (.undefined t)), chain past) →
      owner t.lexeme past = none →
      chain (op :: past) = chain past ∧ ∃ t, h = .error (.undefined t) ∧ owner t.lexeme past = none := by
    intro t ht ho
    rw [ht] at hh
    exact ⟨congrArg Prod.snd ht, t, (Except.error.inj hh).symm, ho⟩
  cases op with
  | push | pop | define => cases hh
  | assign t v =>
    cases ho : owner t.lexeme past with
    | none => exact hfail t (assign_of_no_owner v ho) ho
    | some c =>
      rw [assign_of_owner v ho] at hh
      cases hh
  | get t =>
    cases ho : owner t.lexeme past with
    | none => exact hfail t (get_of_no_owner ho) ho
    | some c =>
      obtain ⟨v, -, hv⟩ := get_of_owner ho
      rw [hv] at hh
      cases hh

theorem live_scope {inner : List Op} (hi : Closed inner) (past : List Op) :
    live (.pop :: inner ++ .push :: past) = live past := by
  have hc : Closed (.pop :: inner ++ [.push]) := .scope hi .nil
  simpa using hc.live_append past

theorem bound_scope {inner : List Op} (hi : Closed inner) {i : Nat} (hc : (live past)[i]? = some c)
    (hr : ¬ Reassigned c x inner (.push :: past)) :
    bound i x (chain (.pop :: inner ++ .push :: past)) = bound i x (chain past) := by
  have hlatest : latest c x (.pop :: inner ++ .push :: past) = latest c x past :=
    hi.latest_append (.push :: past) (List.mem_of_getElem? hc) hr
  have hc' : (live (.pop :: inner ++ .push :: past))[i]? = some c := by rw [live_scope hi, hc]
  rw [(follows_chain _).bound_eq hc', (follows_chain past).bound_eq hc, hlatest]

/-- Every chain obeys its history. -/
theorem obeys (past : List Op) : Obeys past where
  get _ _ := get_of_owner
  get_fails t := by
    rw [← owner_eq_none]
    cases ho : owner t.lexeme past with
    | none => simp [get_of_no_owner ho]
    | some c =>
      obtain ⟨v, -, hv⟩ := get_of_owner ho
      simp [hv]
  assign_fails t v := by
    rw [← owner_eq_none]
    cases ho : owner t.lexeme past with
    | none => simp [assign_of_no_owner v ho]
    | some c => simp [assign_of_owner v ho]
  failure _ _ hh := chain_of_failure hh
  assign _ v _ ho := ⟨assign_of_owner v ho, bound_assign v ho⟩
  frame inner hi := by
    refine ⟨?_, fun _ _ _ => bound_scope hi⟩
    rw [(follows_chain _).length_eq, live_scope hi, (follows_chain past).length_eq]

end Lox.Trace
