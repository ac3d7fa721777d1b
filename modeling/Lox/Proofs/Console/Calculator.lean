import Lox.Proofs.Console.Arithmetic
import Lox.Proofs.Number.Printed
import Lox.Proofs.Run.Operators

namespace Lox

open Grammar

namespace Entry

def ofToken? (t : Token) : Option Entry :=
  match t.kind, t.literal with
  | .number, .num x => some (.number x)
  | .bang, _ => some (.one t)
  | k, _ => if isBinary k then some (.two t) else none

/-- What a word stands for. Words are read as in a source, and `inf` is infinity. -/
def ofWord? (word : String) : Option Entry :=
  if word = "inf" then some (.number (Number.ofMagnitude Number.infinity))
  else match (scan word).tokens with
    | [t, _] => ofToken? t
    | _ => none

def operator? : Entry → Option Token
  | number _ => none
  | one t => some t
  | two t => some t

def operatorAt? (xs : List Entry) (place : Nat) : Option Token := xs[place]?.bind operator?

theorem operatorAt?_append_left {xs : List Entry} {k : Nat} {t : Token} (h : operatorAt? xs k = some t)
    (ys : List Entry) : operatorAt? (xs ++ ys) k = some t := by
  obtain ⟨x, hx, ht⟩ := Option.bind_eq_some_iff.1 h
  obtain ⟨hk, -⟩ := List.getElem?_eq_some_iff.1 hx
  rw [operatorAt?, List.getElem?_append_left hk, hx, Option.bind_some, ht]

theorem operatorAt?_append_right (xs ys : List Entry) (k : Nat) :
    operatorAt? (xs ++ ys) (xs.length + k) = operatorAt? ys k := by
  rw [operatorAt?, List.getElem?_append_right (Nat.le_add_right _ _), Nat.add_sub_cancel_left,
    operatorAt?]

variable {x : Entry} {t : Token}

theorem kind_eq_bang {k : Kind} (h : isUnary k = true) (hm : k ≠ .minus) : k = .bang := by
  simp only [isUnary, Bool.or_eq_true, beq_iff_eq] at h
  exact h.resolve_right hm

theorem ofToken?_of_bang (h : t.kind = .bang) : ofToken? t = some (.one t) := by simp only [ofToken?, h]

theorem ofToken?_of_isBinary (h : isBinary t.kind = true) : ofToken? t = some (.two t) := by
  unfold ofToken?
  split
  case h_1 hk _ | h_2 hk =>
    rw [hk] at h
    exact absurd h (by decide)
  case h_3 => exact if_pos h

theorem isBinary_of_isSpelled (h : (two t).IsSpelled) : isBinary t.kind = true := by
  cases h with
  | two _ hk => exact hk

theorem isSpelled_relocate (place : Int → Int) : (x.relocate place).IsSpelled ↔ x.IsSpelled := by
  constructor
  · intro h
    cases x with
    | number x => exact h
    | one t =>
      cases h with
      | one ht hk => exact .one ht hk
    | two t =>
      cases h with
      | two ht hk => exact .two ht hk
  · rintro (hb | ⟨ht, hk⟩ | ⟨ht, hk⟩)
    · exact .number hb
    · exact .one ht hk
    · exact .two ht hk

theorem ofWord?_of_lexeme {word : String} {k : Kind} {v : Value} (h : Lexeme word.toList k v)
    (hs : k ≠ .string) (hi : k ≠ .identifier) : ofWord? word = ofToken? ⟨k, word, v, 1⟩ := by
  have hne : word ≠ "inf" := by
    rintro rfl
    exact hi (h.unique Number.lexeme_inf).1
  rw [ofWord?, if_neg hne, scan_lexeme h hs]

theorem ofWord?_word (h : x.IsSpelled) (hs : x.sign? ≠ some true) :
    ofWord? x.word = some (x.relocate fun _ => 1) := by
  cases h with
  | @number bits hb =>
    obtain hlt | rfl := Nat.lt_or_eq_of_le hb
    · exact ofWord?_of_lexeme (Number.lexeme_text hlt) (by decide) (by decide)
    · rw [word, Number.text_infinity]
      rfl
  | @one t ht hk =>
    have hbang : t.kind = .bang := kind_eq_bang hk fun hm => hs (if_pos hm)
    exact (ofWord?_of_lexeme ht (by simp [hbang]) (by simp [hbang])).trans (ofToken?_of_bang hbang)
  | @two t ht hk =>
    have hkind : t.kind ≠ .string ∧ t.kind ≠ .identifier := by
      constructor <;> intro he <;> rw [he] at hk <;> exact absurd hk (by decide)
    exact (ofWord?_of_lexeme ht hkind.1 hkind.2).trans (ofToken?_of_isBinary hk)

end Entry

namespace Calculator

/-- Why the calculator stops. A place is the number of words in front of the one at which it stops.
-/
inductive Jam
  /-- An operator and operands for which it has no rule. -/
  | refused (place : Nat) (detail : String)
  /-- A word without a meaning, or an operator without its operands. -/
  | stuck (place : Nat)
  deriving DecidableEq

def settle (place : Nat) (stack : List Value) : Except Halt Value → Except Jam (List Value)
  | .ok v => .ok (v :: stack)
  | .error (.error (.badOperand _ detail)) => .error (.refused place detail)
  | .error _ => .error (.stuck place)

/-- Numbers are put on the stack. Operators take their operands from it, the right one first, and
are applied by the rules of the evaluation. -/
def press (place : Nat) : List Value → Entry → Except Jam (List Value)
  | stack, .number x => .ok (.num x :: stack)
  | v :: stack, .one t => settle place stack (applyUnary t v)
  | w :: v :: stack, .two t => settle place stack (applyBinary t v w)
  | _, _ => .error (.stuck place)

def run (place : Nat) (stack : List Value) : List String → Except Jam (List Value)
  | [] => .ok stack
  | word :: words =>
    match Entry.ofWord? word with
    | none => .error (.stuck place)
    | some x => do
      let stack ← press place stack x
      run (place + 1) stack words

def compute (text : String) : Except Jam (List Value) := run 0 [] (Text.words text)

variable {x : Entry}

theorem settle_mapError (f : Int → Int) (place : Nat) (stack : List Value) (r : Except Halt Value) :
    settle place stack (r.mapError (Halt.relocate f)) = settle place stack r := by
  obtain ⟨e | _ | _⟩ | _ := r
  · cases e <;> rfl
  all_goals rfl

theorem press_relocate (f : Int → Int) (place : Nat) (stack : List Value) (x : Entry) :
    press place stack (x.relocate f) = press place stack x := by
  cases x with
  | number x => rfl
  | one t =>
    cases stack with
    | nil => rfl
    | cons v stack => simp only [Entry.relocate, press, applyUnary_relocate, settle_mapError]
  | two t =>
    obtain _ | ⟨w, _ | ⟨v, stack⟩⟩ := stack
    · rfl
    · rfl
    · simp only [Entry.relocate, press, applyBinary_relocate, settle_mapError]

theorem run_cons (h : x.IsSpelled) (hs : x.sign? ≠ some true) (place : Nat) (stack : List Value)
    (words : List String) :
    run place stack (x.word :: words) =
      press place stack x >>= fun stack => run (place + 1) stack words := by
  rw [run, Entry.ofWord?_word h hs, ← press_relocate]

/-- With some operands on the stack, the entries compute what `p` does: they put its value in the
place of the operands, or the calculator stops at the operator at which `p` stops, with the same
message. -/
inductive Computes (operands : List Value) (xs : List Entry) (p : Run Scopes Value) : Prop
  | value (v : Value) (he : ∀ scopes, p scopes = (.ok v, scopes))
      (hr : ∀ place stack words, run place (operands ++ stack) (xs.map Entry.word ++ words) =
        run (place + xs.length) (v :: stack) words)
  | refusal (k : Nat) (t : Token) (detail : String) (ht : Entry.operatorAt? xs k = some t)
      (he : ∀ scopes, p scopes = (.error (.badOperand t detail), scopes))
      (hr : ∀ place stack words, run place (operands ++ stack) (xs.map Entry.word ++ words) =
        .error (.refused (place + k) detail))

variable {operands : List Value} {xs ys : List Entry} {p : Run Scopes Value}
    {f : Value → Run Scopes Value}

theorem Computes.bind (hp : Computes [] xs p) (hf : ∀ v, Computes (v :: operands) ys (f v)) :
    Computes operands (xs ++ ys) (p >>= f) := by
  cases hp with
  | refusal k t detail ht he hr =>
    refine .refusal k t detail (Entry.operatorAt?_append_left ht ys) (fun scopes => ?_)
      fun place stack words => ?_
    · rw [Run.bind_apply, he]
    · rw [List.map_append, List.append_assoc]
      exact hr place (operands ++ stack) _
  | value v he hr =>
    have hrun : ∀ place stack words, run place (operands ++ stack) ((xs ++ ys).map Entry.word ++ words) =
        run (place + xs.length) (v :: operands ++ stack) (ys.map Entry.word ++ words) := by
      intro place stack words
      rw [List.map_append, List.append_assoc]
      exact hr place (operands ++ stack) _
    cases hf v with
    | value u he' hr' =>
      refine .value u (fun scopes => ?_) fun place stack words => ?_
      · rw [Run.bind_apply, he]
        exact he' scopes
      · rw [hrun, hr', List.length_append, Nat.add_assoc]
    | refusal k t detail ht he' hr' =>
      refine .refusal (xs.length + k) t detail ?_ (fun scopes => ?_) fun place stack words => ?_
      · rw [Entry.operatorAt?_append_right, ht]
      · rw [Run.bind_apply, he]
        exact he' scopes
      · rw [hrun, hr', Nat.add_assoc]

theorem computes_number {x : Float} (h : (Entry.number x).IsSpelled) :
    Computes [] [.number x] (pure (.num x)) :=
  .value (.num x) (fun _ => rfl) fun place stack words => run_cons h nofun place stack words

theorem computes_operator {t : Token} {r : Except Halt Value} (h : x.IsSpelled)
    (hs : x.sign? ≠ some true) (ht : x.operator? = some t)
    (hr : (∃ v, r = .ok v) ∨ ∃ detail, r = .error (.badOperand t detail))
    (hx : ∀ place stack, press place (operands ++ stack) x = settle place stack r) :
    Computes operands [x] (.ofExcept r) := by
  obtain ⟨v, rfl⟩ | ⟨detail, rfl⟩ := hr
  · refine .value v (fun _ => rfl) fun place stack words => ?_
    exact (run_cons h hs place _ words).trans (by rw [hx]; rfl)
  · refine .refusal 0 t detail ht (fun _ => rfl) fun place stack words => ?_
    exact (run_cons h hs place _ words).trans (by rw [hx]; rfl)

theorem computes_entries {e : Expr} (h : e.IsArithmetic) (hx : ∀ x ∈ e.entries, x.IsSpelled)
    (hs : ∀ x ∈ e.entries, x.sign? ≠ some true) : Computes [] e.entries e.eval := by
  induction h with
  | number x => exact computes_number (hx _ List.mem_cons_self)
  | one t h ih =>
    obtain ⟨hx, hxt⟩ := List.forall_mem_append.1 hx
    obtain ⟨hs, hst⟩ := List.forall_mem_append.1 hs
    refine (ih hx hs).bind fun v => ?_
    have hcases := applyUnary_cases t v
    exact computes_operator (hxt _ List.mem_cons_self) (hst _ List.mem_cons_self) rfl hcases
      fun _ _ => rfl
  | two t ha hb iha ihb =>
    obtain ⟨hx, hxs⟩ := List.forall_mem_append.1 hx
    obtain ⟨hxs, hxt⟩ := List.forall_mem_append.1 hxs
    obtain ⟨hs, hss⟩ := List.forall_mem_append.1 hs
    obtain ⟨hss, hst⟩ := List.forall_mem_append.1 hss
    refine (iha hx hs).bind fun v => (ihb hxs hss).bind fun w => ?_
    have hxt := hxt _ List.mem_cons_self
    have hcases := applyBinary_cases (Entry.isBinary_of_isSpelled hxt) v w
    exact computes_operator hxt (hst _ List.mem_cons_self) rfl hcases fun _ _ => rfl
  | group _ ih => exact ih hx hs

theorem compute_of_isArithmetic {e : Expr} (h : e.IsArithmetic) (hx : ∀ x ∈ e.entries, x.IsSpelled)
    (hs : true ∉ e.signs) :
    (∃ v, compute e.reversed = .ok [v] ∧ ∀ scopes, e.eval scopes = (.ok v, scopes)) ∨
      ∃ k t detail, compute e.reversed = .error (.refused k detail) ∧
        Entry.operatorAt? e.entries k = some t ∧
        ∀ scopes, e.eval scopes = (.error (.badOperand t detail), scopes) := by
  have hsign : ∀ x ∈ e.entries, x.sign? ≠ some true :=
    fun x hx ht => hs (List.mem_filterMap.2 ⟨x, hx, ht⟩)
  have hrun : compute e.reversed = run 0 ([] ++ []) (e.entries.map Entry.word ++ []) := by
    rw [compute, Expr.words_reversed h hx, List.append_nil, List.append_nil]
  rw [hrun]
  cases computes_entries h hx hsign with
  | value v he hr => exact .inl ⟨v, hr 0 [] [], he⟩
  | refusal k t detail ht he hr =>
    refine .inr ⟨k, t, detail, ?_, ht, he⟩
    rw [hr, Nat.zero_add]

end Calculator

theorem Expr.reversed_relocate (place : Int → Int) (e : Expr) :
    (e.relocate place).reversed = e.reversed := by
  induction e with
  | literal v => rfl
  | unary t e ih => simp only [relocate, reversed, ih, Token.relocate_lexeme]
  | binary a t b iha ihb => simp only [relocate, reversed, iha, ihb, Token.relocate_lexeme]
  | grouping e ih => exact ih
  | name | assign | logical => rfl

/-- Exactly the expressions that are made of numbers and operators have a reversed text. If no minus
sign of such an expression in a source without problems has one operand only, then the calculator,
given the text, comes to the value of the expression and to nothing else, or is stopped with the
same message by the operator at which the evaluation stops. As this is so on whatever lines the
operators are, they are told apart even if they are spelled alike. -/
theorem compute_reversed {source : String} (h : (compile source).problems = []) {e : Expr}
    (he : e ∈ Stmt.expressionsAll (compile source).statements) :
    (e.reversed ≠ "" ↔ e.IsArithmetic) ∧
      (e.IsArithmetic → true ∉ e.signs → ∀ f : Expr, f.relocate nowhere = e.relocate nowhere →
        (∃ v, Calculator.compute e.reversed = .ok [v] ∧ ∀ scopes, f.eval scopes = (.ok v, scopes)) ∨
          ∃ k t detail, Calculator.compute e.reversed = .error (.refused k detail) ∧
            Entry.operatorAt? f.entries k = some t ∧
            ∀ scopes, f.eval scopes = (.error (.badOperand t detail), scopes)) := by
  refine ⟨⟨Expr.isArithmetic_of_reversed, fun ha => (Expr.reversed_eq ha).2⟩, fun ha hs f hf => ?_⟩
  have htext : f.reversed = e.reversed := by
    rw [← f.reversed_relocate nowhere, hf, Expr.reversed_relocate]
  have hfa : f.IsArithmetic := Expr.isArithmetic_of_reversed (htext ▸ (Expr.reversed_eq ha).2)
  have hfs : true ∉ f.signs := by rwa [← f.signs_relocate nowhere, hf, Expr.signs_relocate]
  have hfx : ∀ y ∈ f.entries, y.IsSpelled := by
    intro y hy
    have hmap : f.entries.map (Entry.relocate nowhere) = e.entries.map (Entry.relocate nowhere) := by
      rw [← Expr.entries_relocate, hf, Expr.entries_relocate]
    obtain ⟨x, hx, hxy⟩ := List.mem_map.1 (hmap ▸ List.mem_map_of_mem hy)
    rw [← Entry.isSpelled_relocate nowhere, ← hxy, Entry.isSpelled_relocate]
    exact isSpelled_of_compile h he x hx
  rw [← htext]
  exact Calculator.compute_of_isArithmetic hfa hfx hfs

/-- Of the two stars on a line, the first one has no number as its right operand: `print 3 * !0 *
4;` -/
theorem compute_reversed_refused :
    let source := "print 3 * !0 * 4;"
    let star (line : Int) : Token := ⟨.star, "*", .nil, line⟩
    let right : Expr := .unary ⟨.bang, "!", .nil, 1⟩ (.literal (.num 0))
    let product (line : Int) : Expr :=
      .binary (.binary (.literal (.num 3)) (star line) right) (star 1) (.literal (.num 4))
    product 1 ∈ Stmt.expressionsAll (compile source).statements ∧ (product 1).reversed = "3 0 ! * 4 *" ∧
      (product 1).IsArithmetic ∧ true ∉ (product 1).signs ∧
      Calculator.compute "3 0 ! * 4 *" = .error (.refused 3 "Operands must be numbers.") ∧
      ∀ scopes, (product 2).eval scopes =
        (.error (.badOperand (star 2) "Operands must be numbers."), scopes) := by
  intro source star right product
  have h : (compile source).problems = [] := List.isEmpty_iff.1 (by decide +kernel)
  have he : product 1 ∈ Stmt.expressionsAll (compile source).statements := by decide +kernel
  have htext : (product 1).reversed = "3 0 ! * 4 *" := by decide +kernel
  have hs : true ∉ (product 1).signs := by decide +kernel
  have hc : Calculator.compute "3 0 ! * 4 *" = .error (.refused 3 "Operands must be numbers.") := by
    decide +kernel
  obtain ⟨hne, hcompute⟩ := compute_reversed h he
  have ha : (product 1).IsArithmetic := hne.1 (by rw [htext]; decide)
  have hplace : Entry.operatorAt? (product 2).entries 3 = some (star 2) := by decide +kernel
  obtain ⟨v, hv, -⟩ | ⟨k, t, detail, hk, ht, heval⟩ := hcompute ha hs (product 2) (by decide +kernel)
  · rw [htext, hc] at hv
    cases hv
  · rw [htext, hc] at hk
    cases hk
    cases hplace.symm.trans ht
    exact ⟨he, htext, ha, hs, hc, heval⟩

end Lox
