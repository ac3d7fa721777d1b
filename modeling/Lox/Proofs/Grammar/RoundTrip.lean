import Lox.Proofs.Grammar.Acceptance

namespace Lox

open Grammar

variable (spelling : Spelling)

theorem Spelling.literal?_literal (v : Value) : literal? (spelling.literal v) = some v := by
  cases v with
  | bool b => cases b <;> rfl
  | _ => rfl

namespace Grammar

theorem isChain_of_isBinary {k : Kind} (h : isBinary k = true) :
    (Level.ofOperator k).isChain = true ∧ (Level.ofOperator k).combine = .binary := by
  cases k <;> first | exact ⟨rfl, rfl⟩ | exact absurd h (by decide)

theorem isChain_of_isLogical {k : Kind} (h : isLogical k = true) :
    (Level.ofOperator k).isChain = true ∧ (Level.ofOperator k).combine = .logical := by
  cases k <;> first | exact ⟨rfl, rfl⟩ | exact absurd h (by decide)

theorem Level.tighter_le_of_lt {l m : Level} (h : l < m) : l.tighter ≤ m := by
  have hl : l ≠ .primary := by
    rintro rfl
    revert h
    cases m <;> decide
  change l.tighter.rank ≤ m.rank
  have hr := rank_tighter hl
  have hm : l.rank < m.rank := h
  omega

theorem Reads.ofOperands {op : Token} {v w : List Token} {a b : Expr} {l m : Level}
    (hc : (Level.ofOperator op.kind).isChain = true) (ha : Reads l v a) (hl : .ofOperator op.kind ≤ l)
    (hb : Reads m w b) (hm : .ofOperator op.kind < m) :
    Reads (.ofOperator op.kind) (v ++ op :: w) ((Level.ofOperator op.kind).combine a op b) :=
  .operation hc (ha.looser hl) (by simp [Level.isOperator]) (hb.looser (Level.tighter_le_of_lt hm))

end Grammar

theorem Expr.assignment_le_level {e : Expr} (h : e.isWellShaped = true) : .assignment ≤ e.level := by
  have of_chain :
      ∀ {k : Kind}, isBinary k = true ∨ isLogical k = true → .assignment ≤ Level.ofOperator k := by
    intro k hk
    cases k <;> first | decide | exact absurd hk (by decide)
  cases e with
  | binary a t b =>
    simp only [isWellShaped, Bool.and_eq_true] at h
    exact of_chain (.inl h.1.1.1.1)
  | logical a t b =>
    simp only [isWellShaped, Bool.and_eq_true] at h
    exact of_chain (.inr h.1.1.1.1)
  | literal | name | assign | unary | grouping => simp only [level]; decide

theorem Expr.reads_tokens {e : Expr} (h : e.isWellShaped = true) :
    Reads e.level (e.tokens spelling) e := by
  induction e with
  | literal v => exact .literal (spelling.literal?_literal v)
  | name t => exact .name (by simpa [isWellShaped] using h)
  | assign t e ih =>
    simp only [isWellShaped, Bool.and_eq_true, beq_iff_eq] at h
    exact .assign h.1 rfl ((ih h.2).looser (assignment_le_level h.2))
  | unary t e ih =>
    simp only [isWellShaped, Bool.and_eq_true, decide_eq_true_eq] at h
    exact .unary h.1.1 ((ih h.2).looser h.1.2)
  | binary a t b iha ihb =>
    simp only [isWellShaped, Bool.and_eq_true, decide_eq_true_eq] at h
    obtain ⟨⟨⟨⟨ht, hl⟩, hm⟩, ha⟩, hb⟩ := h
    obtain ⟨hc, he⟩ := isChain_of_isBinary ht
    have hr := Reads.ofOperands hc (iha ha) hl (ihb hb) hm
    rw [he] at hr
    exact hr
  | logical a t b iha ihb =>
    simp only [isWellShaped, Bool.and_eq_true, decide_eq_true_eq] at h
    obtain ⟨⟨⟨⟨ht, hl⟩, hm⟩, ha⟩, hb⟩ := h
    obtain ⟨hc, he⟩ := isChain_of_isLogical ht
    have hr := Reads.ofOperands hc (iha ha) hl (ihb hb) hm
    rw [he] at hr
    exact hr
  | grouping e ih =>
    exact .grouping rfl ((ih h).looser (Nat.zero_le _)) rfl

theorem Expr.reads_comma_tokens {e : Expr} (h : e.isWellShaped = true) :
    Reads .comma (e.tokens spelling) e := (e.reads_tokens spelling h).looser (Nat.zero_le _)

namespace Stmt

mutual

theorem reads_tokens {s : Stmt} (h : s.isWellShaped = true) (hd : s.isDeclaration = false) :
    ReadsPhrase (s.tokens spelling) (.statement s.endsOpen s) := by
  match s with
  | expression e =>
    simp only [isWellShaped] at h
    exact .expression (e.reads_comma_tokens spelling h) rfl
  | print e =>
    simp only [isWellShaped] at h
    exact .print rfl (e.reads_comma_tokens spelling h) rfl
  | declare t e => simp [isDeclaration] at hd
  | block ss =>
    simp only [isWellShaped] at h
    exact .block rfl (reads_tokensAll h) rfl
  | ifThen c s =>
    simp only [isWellShaped, Bool.and_eq_true, Bool.not_eq_true'] at h
    obtain ⟨⟨hc, hd⟩, hs⟩ := h
    exact .ifThen rfl rfl (c.reads_comma_tokens spelling hc) rfl (reads_tokens hs hd)
  | ifElse c s t =>
    simp only [isWellShaped, Bool.and_eq_true, Bool.not_eq_true'] at h
    obtain ⟨⟨⟨⟨⟨hc, hds⟩, ho⟩, hs⟩, hdt⟩, ht⟩ := h
    have hr := reads_tokens hs hds
    rw [ho] at hr
    exact .ifElse rfl rfl (c.reads_comma_tokens spelling hc) rfl hr rfl (reads_tokens ht hdt)
  | whileLoop c s =>
    simp only [isWellShaped, Bool.and_eq_true, Bool.not_eq_true'] at h
    obtain ⟨⟨hc, hd⟩, hs⟩ := h
    exact .whileLoop rfl rfl (c.reads_comma_tokens spelling hc) rfl (reads_tokens hs hd)

theorem reads_tokensAll {ss : List Stmt} (h : areWellShaped ss = true) :
    ReadsPhrase (tokensAll spelling ss) (.items ss) := by
  match ss with
  | [] => exact .nil
  | s :: ss =>
    simp only [areWellShaped, Bool.and_eq_true] at h
    cases hd : s.isDeclaration with
    | false => exact .statement (reads_tokens h.1 hd) (reads_tokensAll h.2)
    | true =>
      cases s with
      | declare t e =>
        simp only [isWellShaped, Bool.and_eq_true, beq_iff_eq] at h
        have hv : ReadsDeclaration
            (t :: spelling.mark .equal :: e.tokens spelling ++ [spelling.mark .semicolon])
            (.declare t e) :=
          .valued h.1.1 rfl (e.reads_comma_tokens spelling h.1.2) rfl
        exact .declaration rfl hv (reads_tokensAll h.2)
      | _ => simp [isDeclaration] at hd

end

/-- The parser gives back the program whose tokens it is given, whatever is the spelling of those
that the program does not keep. -/
theorem parse_tokensAll {ss : List Stmt} {stop : Token} (h : areWellShaped ss = true)
    (hs : stop.kind = .eof) :
    parse (tokensAll spelling ss ++ [stop]) = ⟨ss, []⟩ :=
  have hr := reads_tokensAll spelling h
  parse_of_reads hr.kind_ne_eof hs hr

/-- Declarations, operators of several levels and an `else` that belongs to the outer conditional.
-/
def layered : List Stmt :=
  let x : Token := ⟨.identifier, "x", .nil, 1⟩
  let sum : Expr := .binary (.binary (.name x) (bare .minus) (.name x)) (bare .plus)
    (.binary (.literal (.str "s")) (bare .star)
      (.unary (bare .minus) (.grouping (.assign x (.literal .nil)))))
  [.declare x (.literal (.bool true)),
    .ifElse (.logical (.name x) (bare .kwOr) (.logical sum (bare .kwAnd) (.name x)))
      (.block [.ifThen (.name x) (.print sum)])
      (.whileLoop (.assign x (.assign x sum)) (.ifThen sum (.expression sum)))]

theorem parse_tokensAll_layered :
    let spelling : Spelling := ⟨fun _ _ => "", 1⟩
    areWellShaped layered = true ∧ (bare .eof).kind = .eof ∧
      parse (tokensAll spelling layered ++ [bare .eof]) = ⟨layered, []⟩ :=
  ⟨by decide, rfl, parse_tokensAll _ (by decide) rfl⟩

end Stmt

end Lox
