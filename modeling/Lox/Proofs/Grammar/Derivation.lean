import Lox.Proofs.Grammar.Reading
import Lox.Proofs.Grammar.Sentence

namespace Lox.Grammar

open Form

namespace Level

def category : Level → Category
  | comma => .expression
  | assignment => .assignment
  | disjunction => .disjunction
  | conjunction => .conjunction
  | equality => .equality
  | comparison => .comparison
  | term => .term
  | factor => .factor
  | unary => .unary
  | primary => .primary

def operators : Level → Form
  | comma => kind .comma
  | disjunction => kind .kwOr
  | conjunction => kind .kwAnd
  | equality => kind .bangEqual <|> kind .equalEqual
  | comparison => kind .greater <|> kind .greaterEqual <|> kind .less <|> kind .lessEqual
  | term => kind .minus <|> kind .plus
  | factor => kind .slash <|> kind .star
  | _ => kind .eof

theorem production_category {l : Level} (hl : l.isChain = true) :
    production l.category = chained l.tighter.category l.operators := by
  cases l <;> first | rfl | simp [isChain] at hl

theorem derives_operators {l : Level} (hl : l.isChain = true) {k : Kind} (h : l.isOperator k = true) :
    Derives l.operators [k] := by
  cases l <;> simp only [isChain, Bool.false_eq_true] at hl <;> cases k <;>
    first
    | exact .kind _
    | exact .left (.kind _)
    | exact .right (.kind _)
    | exact .right (.left (.kind _))
    | exact .right (.right (.left (.kind _)))
    | exact .right (.right (.right (.kind _)))
    | simp [isOperator, ofOperator] at h

end Level

theorem Derives.snoc {f : Form} {v w : List Kind} (hm : Derives (many f) v) (hf : Derives f w) :
    Derives (many f) (v ++ w) := by
  generalize hg : many f = g at hm
  induction hm with
  | nil =>
    cases hg
    simpa using Derives.cons hf .nil
  | cons hu _ _ ih =>
    cases hg
    rw [List.append_assoc]
    exact .cons hu (ih rfl)
  | kind | category | seq | left | right | absent | present => cases hg

theorem Derives.operand {c : Category} {ops : Form} {w : List Kind} (h : Derives (.category c) w) :
    Derives (chained c ops) w := by
  simpa using show Derives (chained c ops) (w ++ []) from .seq h .nil

theorem Derives.operation {c : Category} {ops : Form} {v u w : List Kind} (h : Derives (chained c ops) v)
    (ho : Derives ops u) (hw : Derives (.category c) w) : Derives (chained c ops) (v ++ (u ++ w)) := by
  generalize hf : chained c ops = f at h
  cases h with
  | seq hx hm =>
    cases hf
    rw [List.append_assoc]
    exact .seq hx (hm.snoc (.seq ho hw))
  | kind | category | left | right | absent | present | nil | cons => cases hf

theorem derives_literal {t : Token} {v : Value} (h : literal? t = some v) :
    Derives (category .primary) [t.kind] := by
  obtain ⟨kind, lexeme, value, line⟩ := t
  apply Derives.category
  cases kind <;> simp only [literal?, reduceCtorEq] at h
  · exact .right (.left (.kind _))
  · exact .left (.kind _)
  · exact .right (.right (.right (.left (.kind _))))
  · exact .right (.right (.right (.right (.left (.kind _)))))
  · exact .right (.right (.left (.kind _)))

theorem derives_unary {k : Kind} (h : isUnary k = true) : Derives (kind .bang <|> kind .minus) [k] := by
  obtain rfl | rfl := (by simpa [isUnary] using h : k = .bang ∨ k = .minus)
  · exact .left (.kind _)
  · exact .right (.kind _)

theorem Reads.derives {l : Level} {w : List Token} {e : Expr} (h : Reads l w e) :
    Derives (category l.category) (w.map Token.kind) := by
  induction h with
  | literal h => exact derives_literal h
  | name h =>
    rw [List.map_singleton, h]
    exact .category (.right (.right (.right (.right (.right (.left (.kind _)))))))
  | grouping ho _ hc ih =>
    have hp := ((Derives.kind .leftParen).seq ih).seq (.kind .rightParen)
    simp only [List.map_append, List.map_cons, List.map_nil, ho, hc]
    exact .category (.right (.right (.right (.right (.right (.right hp))))))
  | unary ho _ ih => exact .category (.left ((derives_unary ho).seq ih))
  | assign ht hq _ ih =>
    have hp := ((Derives.kind .identifier).seq (.kind .equal)).seq ih
    simp only [List.map_cons, ht, hq]
    exact .category (.left hp)
  | @operation l op v w a b hl _ ho _ iha ihb =>
    cases iha with
    | category iha =>
      apply Derives.category
      rw [Level.production_category hl] at iha ⊢
      simpa using iha.operation (Level.derives_operators hl ho) ihb
  | @tighter l w e _ ih =>
    cases l with
    | assignment => exact .category (.right ih)
    | unary => exact .category (.right ih)
    | primary => exact ih
    | comma | disjunction | conjunction | equality | comparison | term | factor =>
      exact .category ih.operand

theorem ReadsDeclaration.derives {w : List Token} {s : Stmt} (h : ReadsDeclaration w s) :
    Derives binding (w.map Token.kind) := by
  cases h with
  | plain hn hs =>
    simp only [List.map_cons, List.map_nil, hn, hs]
    exact .seq (.seq (.kind .identifier) .absent) (.kind .semicolon)
  | valued hn hq h hs =>
    have hv := (Derives.kind .equal).seq h.derives
    simp only [List.map_append, List.map_cons, List.map_nil, hn, hq, hs]
    exact .seq (.seq (.kind .identifier) (.present hv)) (.kind .semicolon)

theorem ReadsFirst.derives {w : List Token} {first : Option Stmt} (h : ReadsFirst w first) :
    Derives opening (w.map Token.kind) := by
  cases h with
  | none hs =>
    rw [List.map_singleton, hs]
    exact .right (.right (.kind .semicolon))
  | declaration hv h =>
    rw [List.map_cons, hv]
    exact .left (.seq (.kind .kwVar) h.derives)
  | expression h hs =>
    rw [List.map_append, List.map_singleton, hs]
    exact .right (.left (.seq h.derives (.kind .semicolon)))

theorem ReadsClause.derives {w : List Token} {clause : Option Expr} (h : ReadsClause w clause) :
    Derives (option (category .expression)) (w.map Token.kind) := by
  cases h with
  | none => exact .absent
  | some h => exact .present h.derives

def Phrase.form : Phrase → Form
  | .statement .. => category .statement
  | .items _ => many (category .declaration)

theorem derives_condition {opening closing : Token} {v : List Token} {c : Expr}
    (ho : opening.kind = .leftParen) (he : Reads .comma v c) (hc : closing.kind = .rightParen) :
    Derives parenthesized ((opening :: v ++ [closing]).map Token.kind) := by
  simp only [List.map_append, List.map_cons, List.map_nil, ho, hc]
  exact .seq (.seq (.kind .leftParen) he.derives) (.kind .rightParen)

theorem ReadsPhrase.derives {w : List Token} {p : Phrase} (h : ReadsPhrase w p) :
    Derives p.form (w.map Token.kind) := by
  induction h with
  | expression h hs =>
    rw [List.map_append, List.map_singleton, hs]
    exact .category (.left (.seq h.derives (.kind .semicolon)))
  | print hp h hs =>
    simp only [List.map_append, List.map_cons, List.map_nil, hp, hs]
    exact .category (.right (.left (.seq (.seq (.kind .kwPrint) h.derives) (.kind .semicolon))))
  | block ho _ hc ih =>
    simp only [List.map_append, List.map_cons, List.map_nil, ho, hc]
    exact .category (.right (.right (.left (.seq (.seq (.kind .leftBrace) ih) (.kind .rightBrace)))))
  | ifThen hk ho he hc _ ih =>
    have h : Derives (kind .kwIf ++ parenthesized ++ category .statement ++
        option (kind .kwElse ++ category .statement)) _ :=
      .seq (.seq (.seq (.kind .kwIf) (derives_condition ho he hc)) ih) .absent
    refine .category (.right (.right (.right (.left ?_))))
    simpa [hk] using h
  | ifElse hk ho he hc _ hl _ ih ih' =>
    have h : Derives (kind .kwIf ++ parenthesized ++ category .statement ++
        option (kind .kwElse ++ category .statement)) _ :=
      .seq (.seq (.seq (.kind .kwIf) (derives_condition ho he hc)) ih)
        (.present (.seq (.kind .kwElse) ih'))
    refine .category (.right (.right (.right (.left ?_))))
    simpa [hk, hl] using h
  | whileLoop hk ho he hc _ ih =>
    have h : Derives (kind .kwWhile ++ parenthesized ++ category .statement) _ :=
      .seq (.seq (.kind .kwWhile) (derives_condition ho he hc)) ih
    refine .category (.right (.right (.right (.right (.left ?_)))))
    simpa [hk] using h
  | forLoop hk ho hf he hs hp hc _ ih =>
    have h : Derives (kind .kwFor ++ kind .leftParen ++ opening ++ option (category .expression) ++
        kind .semicolon ++ option (category .expression) ++ kind .rightParen ++ category .statement) _ :=
      .seq (.seq (.seq (.seq (.seq (.seq (.seq (.kind .kwFor) (.kind .leftParen)) hf.derives) he.derives)
        (.kind .semicolon)) hp.derives) (.kind .rightParen)) ih
    refine .category (.right (.right (.right (.right (.right ?_)))))
    simpa [hk, ho, hs, hc] using h
  | nil => exact .nil
  | declaration hv h _ ih =>
    rw [List.map_append, List.map_cons, hv]
    exact .cons (.category (.left (.seq (.kind .kwVar) h.derives))) ih
  | statement _ _ ih ih' =>
    rw [List.map_append]
    exact .cons (.category (.right ih)) ih'

theorem ReadsPhrase.attach {w w' : List Token} {isOpen : Bool} {other : Token} {s s' : Stmt}
    (h : ReadsPhrase w (.statement true s)) (hl : other.kind = .kwElse)
    (h' : ReadsPhrase w' (.statement isOpen s')) :
    ∃ isOpen' t, ReadsPhrase (w ++ other :: w') (.statement isOpen' t) := by
  generalize hp : Phrase.statement true s = p at h
  induction h generalizing s with
  | @ifThen kw opening closing v w c inner s hk ho he hc h ih =>
    cases inner with
    | false => exact ⟨_, _, by simpa using ReadsPhrase.ifElse hk ho he hc h hl h'⟩
    | true =>
      obtain ⟨_, _, ht⟩ := ih rfl
      exact ⟨_, _, by simpa using ReadsPhrase.ifThen hk ho he hc ht⟩
  | ifElse hk ho he hc h hl _ _ ih =>
    cases hp
    obtain ⟨_, _, ht⟩ := ih rfl
    exact ⟨_, _, by simpa using ReadsPhrase.ifElse hk ho he hc h hl ht⟩
  | whileLoop hk ho he hc _ ih =>
    cases hp
    obtain ⟨_, _, ht⟩ := ih rfl
    exact ⟨_, _, by simpa using ReadsPhrase.whileLoop hk ho he hc ht⟩
  | forLoop hk ho hf he hs hp' hc _ ih =>
    cases hp
    obtain ⟨_, _, ht⟩ := ih rfl
    exact ⟨_, _, by simpa using ReadsPhrase.forLoop hk ho hf he hs hp' hc ht⟩
  | expression | print | block | nil | declaration | statement => cases hp

/-- The tokens that a form stands for where it is known which tokens each category stands for. -/
def Form.Holds (readable : Category → List Token → Prop) : Form → List Token → Prop
  | kind k, w => ∃ t, w = [t] ∧ t.kind = k
  | category c, w => readable c w
  | seq f g, w => ∃ u v, w = u ++ v ∧ f.Holds readable u ∧ g.Holds readable v
  | alt f g, w => f.Holds readable w ∨ g.Holds readable w
  | option f, w => w = [] ∨ f.Holds readable w
  | many f, w => ∃ ws : List (List Token), w = ws.flatten ∧ ∀ v ∈ ws, f.Holds readable v

/-- The categories stand for the least lists that are closed under the rules. -/
theorem Derives.holds {readable : Category → List Token → Prop}
    (closed : ∀ c w, (production c).Holds readable w → readable c w) {f : Form} {ks : List Kind}
    (h : Derives f ks) {w : List Token} (hw : w.map Token.kind = ks) : f.Holds readable w := by
  induction h generalizing w with
  | kind k =>
    obtain ⟨t, rfl, ht⟩ := List.map_eq_singleton_iff.1 hw
    exact ⟨t, rfl, ht⟩
  | category _ ih => exact closed _ w (ih hw)
  | seq _ _ ihf ihg =>
    obtain ⟨u, v, rfl, hu, hv⟩ := List.map_eq_append_iff.1 hw
    exact ⟨u, v, rfl, ihf hu, ihg hv⟩
  | left _ ih => exact .inl (ih hw)
  | right _ ih => exact .inr (ih hw)
  | absent => exact .inl (List.map_eq_nil_iff.1 hw)
  | present _ ih => exact .inr (ih hw)
  | nil => exact ⟨[], List.map_eq_nil_iff.1 hw, by simp⟩
  | cons _ _ ihf ihm =>
    obtain ⟨u, v, rfl, hu, hv⟩ := List.map_eq_append_iff.1 hw
    obtain ⟨ws, rfl, hws⟩ := ihm hv
    refine ⟨u :: ws, rfl, fun x hx => ?_⟩
    obtain rfl | hx := List.mem_cons.1 hx
    · exact ihf hu
    · exact hws x hx

def Readable : Category → List Token → Prop
  | .program, w => ∃ body stop ss, w = body ++ [stop] ∧ stop.kind = .eof ∧ ReadsPhrase body (.items ss)
  | .declaration, w => ∃ s, ReadsPhrase w (.items [s])
  | .statement, w => ∃ isOpen s, ReadsPhrase w (.statement isOpen s)
  | .expression, w => ∃ e, Reads .comma w e
  | .assignment, w => ∃ e, Reads .assignment w e
  | .disjunction, w => ∃ e, Reads .disjunction w e
  | .conjunction, w => ∃ e, Reads .conjunction w e
  | .equality, w => ∃ e, Reads .equality w e
  | .comparison, w => ∃ e, Reads .comparison w e
  | .term, w => ∃ e, Reads .term w e
  | .factor, w => ∃ e, Reads .factor w e
  | .unary, w => ∃ e, Reads .unary w e
  | .primary, w => ∃ e, Reads .primary w e

theorem readable_category {l : Level} {w : List Token} : Readable l.category w ↔ ∃ e, Reads l w e := by
  cases l <;> rfl

theorem operators_hold {l : Level} (hl : l.isChain = true) {w : List Token}
    (h : l.operators.Holds Readable w) : ∃ t, w = [t] ∧ l.isOperator t.kind = true := by
  have of_kind : ∀ {k : Kind}, (kind k).Holds Readable w → l.isOperator k = true →
      ∃ t, w = [t] ∧ l.isOperator t.kind = true := by
    rintro k ⟨t, rfl, rfl⟩ hk
    exact ⟨t, rfl, hk⟩
  cases l with
  | assignment | unary | primary => simp [Level.isChain] at hl
  | comma | disjunction | conjunction => exact of_kind h rfl
  | equality | term | factor => obtain h | h := h <;> exact of_kind h rfl
  | comparison => obtain h | h | h | h := h <;> exact of_kind h rfl

theorem readable_chained {l : Level} (hl : l.isChain = true) {w : List Token}
    (h : (chained l.tighter.category l.operators).Holds Readable w) : Readable l.category w := by
  obtain ⟨v, _, rfl, hv, ws, rfl, hws⟩ := h
  obtain ⟨e, he⟩ := readable_category.1 hv
  replace he : Reads l v e := he.tighter
  rw [readable_category]
  clear hv
  induction ws generalizing v e with
  | nil => exact ⟨e, by simpa using he⟩
  | cons x ws ih =>
    obtain ⟨o, y, rfl, ho, hy⟩ := hws x (by simp)
    obtain ⟨op, rfl, hop⟩ := operators_hold hl ho
    obtain ⟨b, hb⟩ := readable_category.1 hy
    have h := ih _ (fun x hx => hws x (by simp [hx])) _ (.operation hl he hop hb)
    simpa using h

theorem readable_primary {w : List Token} (h : (production .primary).Holds Readable w) :
    Readable .primary w := by
  have of_literal : ∀ {k : Kind}, (∀ t : Token, t.kind = k → ∃ v, literal? t = some v) →
      (kind k).Holds Readable w → Readable .primary w := by
    rintro k hk ⟨t, rfl, ht⟩
    obtain ⟨v, hv⟩ := hk t ht
    exact ⟨_, .literal hv⟩
  obtain h | h | h | h | h | ⟨t, rfl, ht⟩ |
    ⟨_, _, rfl, ⟨_, w, rfl, ⟨opening, rfl, ho⟩, e, he⟩, closing, rfl, hc⟩ := h
  · exact of_literal (fun t ht => ⟨t.literal, by simp [literal?, ht]⟩) h
  · exact of_literal (fun t ht => ⟨t.literal, by simp [literal?, ht]⟩) h
  · exact of_literal (fun t ht => ⟨.bool true, by simp [literal?, ht]⟩) h
  · exact of_literal (fun t ht => ⟨.bool false, by simp [literal?, ht]⟩) h
  · exact of_literal (fun t ht => ⟨.nil, by simp [literal?, ht]⟩) h
  · exact ⟨_, .name ht⟩
  · exact ⟨_, .grouping ho he hc⟩

theorem readsDeclaration_of_holds {w : List Token} (h : binding.Holds Readable w) :
    ∃ s, ReadsDeclaration w s := by
  obtain ⟨_, _, rfl, ⟨_, _, rfl, ⟨name, rfl, hn⟩, hv⟩, semi, rfl, hs⟩ := h
  obtain rfl | ⟨_, w, rfl, ⟨equals, rfl, hq⟩, e, he⟩ := hv
  · exact ⟨_, .plain hn hs⟩
  · exact ⟨_, .valued hn hq he hs⟩

theorem readsFirst_of_holds {w : List Token} (h : opening.Holds Readable w) :
    ∃ first, ReadsFirst w first := by
  obtain ⟨_, w, rfl, ⟨var, rfl, hv⟩, h⟩ | ⟨w, _, rfl, ⟨e, he⟩, semi, rfl, hs⟩ | ⟨semi, rfl, hs⟩ := h
  · obtain ⟨s, hs⟩ := readsDeclaration_of_holds h
    exact ⟨_, .declaration hv hs⟩
  · exact ⟨_, .expression he hs⟩
  · exact ⟨_, .none hs⟩

theorem readsClause_of_holds {w : List Token} (h : (option (category .expression)).Holds Readable w) :
    ∃ clause, ReadsClause w clause := by
  obtain rfl | ⟨e, he⟩ := h
  · exact ⟨_, .none⟩
  · exact ⟨_, .some he⟩

theorem readsItems_of_holds {w : List Token} (h : (many (category .declaration)).Holds Readable w) :
    ∃ ss, ReadsPhrase w (.items ss) := by
  obtain ⟨ws, rfl, hws⟩ := h
  induction ws with
  | nil => exact ⟨[], .nil⟩
  | cons x ws ih =>
    obtain ⟨s, hs⟩ := hws x (by simp)
    obtain ⟨ss, hss⟩ := ih fun x hx => hws x (by simp [hx])
    exact ⟨_, hs.append hss⟩

theorem readable_conditional {kw opening closing : Token} {v w : List Token} {c : Expr}
    (hk : kw.kind = .kwIf) (ho : opening.kind = .leftParen) (he : Reads .comma v c)
    (hc : closing.kind = .rightParen) (hs : Readable .statement w) {u : List Token}
    (hu : (option (kind .kwElse ++ category .statement)).Holds Readable u) :
    Readable .statement (kw :: opening :: v ++ closing :: (w ++ u)) := by
  obtain ⟨isOpen, s, hs⟩ := hs
  obtain rfl | ⟨_, w', rfl, ⟨other, rfl, hl⟩, isOpen', s', hs'⟩ := hu
  · exact ⟨_, _, by simpa using ReadsPhrase.ifThen hk ho he hc hs⟩
  · cases isOpen with
    | false => exact ⟨_, _, .ifElse hk ho he hc hs hl hs'⟩
    | true =>
      obtain ⟨_, _, ht⟩ := hs.attach hl hs'
      exact ⟨_, _, .ifThen hk ho he hc ht⟩

theorem readable_statement {w : List Token} (h : (production .statement).Holds Readable w) :
    Readable .statement w := by
  obtain h | h | h | h | h | h := h
  · obtain ⟨w, _, rfl, ⟨e, he⟩, semi, rfl, hs⟩ := h
    exact ⟨_, _, .expression he hs⟩
  · obtain ⟨_, _, rfl, ⟨_, w, rfl, ⟨print, rfl, hp⟩, e, he⟩, semi, rfl, hs⟩ := h
    exact ⟨_, _, .print hp he hs⟩
  · obtain ⟨_, _, rfl, ⟨_, w, rfl, ⟨opening, rfl, ho⟩, hi⟩, closing, rfl, hc⟩ := h
    obtain ⟨ss, hss⟩ := readsItems_of_holds hi
    exact ⟨_, _, .block ho hss hc⟩
  · obtain ⟨_, u, rfl,
      ⟨_, w, rfl, ⟨_, _, rfl, ⟨kw, rfl, hk⟩, _, _, rfl, ⟨_, v, rfl, ⟨opening, rfl, ho⟩, e, he⟩,
      closing, rfl, hc⟩, hs⟩, hu⟩ := h
    simpa using readable_conditional hk ho he hc hs hu
  · obtain ⟨_, w, rfl, ⟨_, _, rfl, ⟨kw, rfl, hk⟩, _, _, rfl, ⟨_, v, rfl, ⟨opening, rfl, ho⟩, e, he⟩,
      closing, rfl, hc⟩, isOpen, s, hs⟩ := h
    exact ⟨_, _, by simpa using ReadsPhrase.whileLoop hk ho he hc hs⟩
  · obtain ⟨_, w, rfl,
      ⟨_, _, rfl, ⟨_, v', rfl, ⟨_, _, rfl, ⟨_, v, rfl, ⟨_, u, rfl, ⟨_, _, rfl, ⟨kw, rfl, hk⟩,
      opening, rfl, ho⟩, hf⟩, he⟩, semi, rfl, hs⟩, hp⟩, closing, rfl, hc⟩, isOpen, s, hb⟩ := h
    obtain ⟨first, hf⟩ := readsFirst_of_holds hf
    obtain ⟨condition, he⟩ := readsClause_of_holds he
    obtain ⟨step, hp⟩ := readsClause_of_holds hp
    exact ⟨_, _, by simpa using ReadsPhrase.forLoop hk ho hf he hs hp hc hb⟩

theorem readable_of_production {c : Category} {w : List Token} (h : (production c).Holds Readable w) :
    Readable c w := by
  cases c with
  | program =>
    obtain ⟨w, _, rfl, hi, stop, rfl, hs⟩ := h
    obtain ⟨ss, hss⟩ := readsItems_of_holds hi
    exact ⟨w, stop, ss, rfl, hs, hss⟩
  | declaration =>
    obtain ⟨_, w, rfl, ⟨var, rfl, hv⟩, h⟩ | ⟨isOpen, s, hs⟩ := h
    · obtain ⟨s, hs⟩ := readsDeclaration_of_holds h
      exact ⟨s, by simpa using ReadsPhrase.declaration hv hs .nil⟩
    · exact ⟨s, by simpa using ReadsPhrase.statement hs .nil⟩
  | statement => exact readable_statement h
  | assignment =>
    obtain ⟨_, w, rfl, ⟨_, _, rfl, ⟨target, rfl, ht⟩, equals, rfl, hq⟩, e, he⟩ | ⟨e, he⟩ := h
    · exact ⟨_, .assign ht hq he⟩
    · exact ⟨e, .tighter (l := .assignment) he⟩
  | unary =>
    obtain ⟨_, w, rfl, ⟨op, rfl, ho⟩ | ⟨op, rfl, ho⟩, e, he⟩ | ⟨e, he⟩ := h
    · exact ⟨_, .unary (by rw [ho]; rfl) he⟩
    · exact ⟨_, .unary (by rw [ho]; rfl) he⟩
    · exact ⟨e, .tighter (l := .unary) he⟩
  | primary => exact readable_primary h
  | expression => exact readable_chained (l := .comma) rfl h
  | disjunction => exact readable_chained (l := .disjunction) rfl h
  | conjunction => exact readable_chained (l := .conjunction) rfl h
  | equality => exact readable_chained (l := .equality) rfl h
  | comparison => exact readable_chained (l := .comparison) rfl h
  | term => exact readable_chained (l := .term) rfl h
  | factor => exact readable_chained (l := .factor) rfl h

/-- What the grammar derives are the lists that have a reading. -/
theorem derives_program_iff {body : List Token} {stop : Token} (hs : stop.kind = .eof) :
    Derives (category .program) ((body ++ [stop]).map Token.kind) ↔
      ∃ ss, ReadsPhrase body (.items ss) := by
  constructor
  · intro h
    obtain ⟨body', stop', ss, hb, _, hss⟩ :=
      Derives.holds (fun _ _ => readable_of_production) h rfl
    obtain ⟨rfl, _⟩ := List.append_inj' hb rfl
    exact ⟨ss, hss⟩
  · rintro ⟨ss, hss⟩
    rw [List.map_append, List.map_singleton, hs]
    exact .category (.seq hss.derives (.kind .eof))

end Lox.Grammar
