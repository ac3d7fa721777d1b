import Lox.Proofs.Grammar.Kept
import Lox.Proofs.Run.Blocks
import Lox.Proofs.Run.ForLoop

namespace Lox

open Run

namespace Stmt

theorem execAll_respects_padded {ss : List Stmt} (hw : ∀ s ∈ ss, s.isWellShaped = true)
    (hd : ∀ s ∈ ss, s.isDeclaration = false) (rounds k : Nat) :
    Respects (State.Related (Scopes.Padded k)) (execAll rounds ss) := by
  induction ss with
  | nil => exact respects_pure _
  | cons s ss ih =>
    obtain ⟨hs, hss⟩ := List.forall_mem_cons.1 hw
    obtain ⟨hd, hds⟩ := List.forall_mem_cons.1 hd
    exact (exec_respects_padded hs hd rounds k).bind fun _ => ih hss hds

end Stmt

/-- Statements from anywhere in any programs that the parser has made, none of them itself a
declaration, are run in braces as they are run one after the other where the braces stand: with the
same result and output, and with the same bindings in every scope around them. -/
theorem exec_block_eq_execAll {ss : List Stmt}
    (hp : ∀ s ∈ ss, ∃ tokens, ∃ t ∈ (parse tokens).statements, s ∈ t.parts)
    (hd : ∀ s ∈ ss, s.isDeclaration = false) (rounds : Nat) :
    (Stmt.block ss).exec rounds = Stmt.execAll rounds ss := by
  have hw : ∀ s ∈ ss, s.isWellShaped = true := by
    intro s hs
    obtain ⟨tokens, t, ht, hst⟩ := hp s hs
    exact Stmt.isWellShaped_of_mem_parts (Grammar.isWellShaped_of_mem_parse ht) hst
  rw [Stmt.exec]
  exact Exec.inScope_eq_self (Stmt.execAll_respects_padded hw hd rounds 0)

/-- A loop whose rounds declare a variable of their own, the branch of a conditional, and a wrong
operand: `while (a) { var b = a; a = !b; } if (b) print a; -b;` -/
def undeclared : List Token :=
  let named (x : String) : Token := ⟨.identifier, x, .nil, 1⟩
  let bare := Grammar.bare
  [bare .kwWhile, bare .leftParen, named "a", bare .rightParen, bare .leftBrace,
    bare .kwVar, named "b", bare .equal, named "a", bare .semicolon,
    named "a", bare .equal, bare .bang, named "b", bare .semicolon, bare .rightBrace,
    bare .kwIf, bare .leftParen, named "b", bare .rightParen, bare .kwPrint, named "a", bare .semicolon,
    bare .minus, named "b", bare .semicolon]

theorem exec_block_eq_execAll_undeclared :
    let named (x : String) : Token := ⟨.identifier, x, .nil, 1⟩
    let loop : Stmt := .whileLoop (.name (named "a")) (.block [.declare (named "b") (.name (named "a")),
      .expression (.assign (named "a") (.unary (Grammar.bare .bang) (.name (named "b"))))])
    let branch : Stmt := .print (.name (named "a"))
    let wrong : Stmt := .expression (.unary (Grammar.bare .minus) (.name (named "b")))
    let ss := [loop, branch, wrong]
    (∀ s ∈ ss, ∃ tokens, ∃ t ∈ (parse tokens).statements, s ∈ t.parts) ∧
      (∀ s ∈ ss, s.isDeclaration = false) ∧
      (Stmt.block ss).exec 2 ⟨.nested [("b", .bool true)] (.root [("a", .bool true)]), ""⟩ =
        (.error (.badOperand (Grammar.bare .minus) "Operand must be a number."),
          ⟨.nested [("b", .bool true)] (.root [("a", .bool false)]), "false\n"⟩) := by
  intro named loop branch wrong ss
  have hparse : (parse undeclared).statements =
      [loop, .ifThen (.name (named "b")) branch, wrong] := by rfl
  have hp : ∀ s ∈ ss, ∃ tokens, ∃ t ∈ (parse tokens).statements, s ∈ t.parts := by
    intro s hs
    refine ⟨undeclared, ?_⟩
    simp only [hparse]
    simp only [ss, List.mem_cons, List.not_mem_nil, or_false] at hs
    obtain rfl | rfl | rfl := hs
    · exact ⟨loop, by simp, by simp [loop, Stmt.parts]⟩
    · exact ⟨.ifThen (.name (named "b")) branch, by simp, by simp [branch, Stmt.parts]⟩
    · exact ⟨wrong, by simp, by simp [wrong, Stmt.parts]⟩
  have hd : ∀ s ∈ ss, s.isDeclaration = false := by decide
  refine ⟨hp, hd, ?_⟩
  rw [exec_block_eq_execAll hp hd 2]
  rfl

namespace Expr

def ungrouped : Expr → Expr
  | literal v => literal v
  | name t => name t
  | assign t e => assign t e.ungrouped
  | unary t e => unary t e.ungrouped
  | binary a t b => binary a.ungrouped t b.ungrouped
  | logical a t b => logical a.ungrouped t b.ungrouped
  | grouping e => e.ungrouped

def hasGrouping : Expr → Bool
  | literal _ => false
  | name _ => false
  | assign _ e => e.hasGrouping
  | unary _ e => e.hasGrouping
  | binary a _ b => a.hasGrouping || b.hasGrouping
  | logical a _ b => a.hasGrouping || b.hasGrouping
  | grouping _ => true

theorem hasGrouping_ungrouped (e : Expr) : e.ungrouped.hasGrouping = false := by
  induction e with
  | literal v | name t => rfl
  | assign t e ih | unary t e ih | grouping e ih => exact ih
  | binary a t b iha ihb | logical a t b iha ihb =>
    simp only [ungrouped, hasGrouping, iha, ihb, Bool.or_self]

theorem eval_ungrouped (e : Expr) : e.ungrouped.eval = e.eval := by
  induction e with
  | literal v | name t => rfl
  | assign t e ih | unary t e ih => simp only [ungrouped, eval, ih]
  | binary a t b iha ihb | logical a t b iha ihb => simp only [ungrouped, eval, iha, ihb]
  | grouping e ih => exact ih

end Expr

namespace Exec

theorem eval_ungrouped (e : Expr) : eval e.ungrouped = eval e := by
  funext state
  rw [eval, eval, e.eval_ungrouped]

theorem test_ungrouped (e : Expr) : test e.ungrouped = test e := by rw [test, test, eval_ungrouped]

end Exec

namespace Stmt

mutual

def ungrouped : Stmt → Stmt
  | expression e => expression e.ungrouped
  | print e => print e.ungrouped
  | declare t e => declare t e.ungrouped
  | block ss => block (ungroupedAll ss)
  | ifThen c s => ifThen c.ungrouped s.ungrouped
  | ifElse c s t => ifElse c.ungrouped s.ungrouped t.ungrouped
  | whileLoop c s => whileLoop c.ungrouped s.ungrouped

def ungroupedAll : List Stmt → List Stmt
  | [] => []
  | s :: ss => s.ungrouped :: ungroupedAll ss

end

mutual

theorem expressions_ungrouped (s : Stmt) :
    s.ungrouped.expressions = s.expressions.map Expr.ungrouped := by
  match s with
  | expression e | print e | declare t e => rfl
  | block ss => exact expressions_ungroupedAll ss
  | ifThen c s | whileLoop c s =>
    simp only [ungrouped, expressions, List.map_cons, expressions_ungrouped s]
  | ifElse c s t =>
    simp only [ungrouped, expressions, List.map_cons, List.map_append, expressions_ungrouped s,
      expressions_ungrouped t]

theorem expressions_ungroupedAll (ss : List Stmt) :
    expressionsAll (ungroupedAll ss) = (expressionsAll ss).map Expr.ungrouped := by
  match ss with
  | [] => rfl
  | s :: ss =>
    simp only [ungroupedAll, expressionsAll, List.map_append, expressions_ungrouped s,
      expressions_ungroupedAll ss]

end

variable (rounds : Nat)

section Observe

variable (look : Exec Unit)

mutual

/-- The run of a statement with another one behind each statement in it that comes to its end, at
every depth and in every round of a loop. The other one may look at all scopes and at the output,
and it may stop the run. -/
def observe : Stmt → Exec Unit
  | expression e => do
    let _ ← Exec.eval e
    look
  | print e => do
    let v ← Exec.eval e
    Exec.emit (v.text ++ "\n")
    look
  | declare t e => do
    let v ← Exec.eval e
    Exec.define t.lexeme v
    look
  | block ss => do
    Exec.inScope (observeAll ss)
    look
  | ifThen c s => do
    if ← Exec.test c then observe s
    look
  | ifElse c s t => do
    if ← Exec.test c then observe s else observe t
    look
  | whileLoop c s => do
    Exec.loop (Exec.test c) (observe s) rounds
    look

def observeAll : List Stmt → Exec Unit
  | [] => pure ()
  | s :: ss => do
    observe s
    observeAll ss

end

mutual

theorem observe_ungrouped (s : Stmt) : s.ungrouped.observe rounds look = s.observe rounds look := by
  match s with
  | expression e | print e | declare t e => simp only [ungrouped, observe, Exec.eval_ungrouped]
  | block ss => simp only [ungrouped, observe, observeAll_ungroupedAll ss]
  | ifThen c s | whileLoop c s =>
    simp only [ungrouped, observe, Exec.test_ungrouped, observe_ungrouped s]
  | ifElse c s t =>
    simp only [ungrouped, observe, Exec.test_ungrouped, observe_ungrouped s, observe_ungrouped t]

theorem observeAll_ungroupedAll (ss : List Stmt) :
    observeAll rounds look (ungroupedAll ss) = observeAll rounds look ss := by
  match ss with
  | [] => rfl
  | s :: ss => simp only [ungroupedAll, observeAll, observe_ungrouped s, observeAll_ungroupedAll ss]

end

end Observe

mutual

theorem observe_pure (s : Stmt) : s.observe rounds (pure ()) = s.exec rounds := by
  match s with
  | expression e => rfl
  | print e | declare t e => simp only [observe, exec, bind_pure_unit]
  | block ss => simp only [observe, exec, observeAll_pure ss, bind_pure_unit]
  | ifThen c s | whileLoop c s => simp only [observe, exec, observe_pure s, bind_pure_unit]
  | ifElse c s t => simp only [observe, exec, observe_pure s, observe_pure t, bind_pure_unit]

theorem observeAll_pure (ss : List Stmt) : observeAll rounds (pure ()) ss = execAll rounds ss := by
  match ss with
  | [] => rfl
  | s :: ss => simp only [observeAll, execAll, observe_pure s, observeAll_pure ss]

end

end Stmt

/-- Groupings may be left out at every depth of every expression of a program. From all scopes the
run is the same, up to the token that an error blames, and so is whatever is seen of scopes and
output behind each of its statements. -/
theorem execAll_ungrouped (rounds : Nat) (ss : List Stmt) :
    (∀ e ∈ Stmt.expressionsAll (Stmt.ungroupedAll ss), e.hasGrouping = false) ∧
      Stmt.execAll rounds (Stmt.ungroupedAll ss) = Stmt.execAll rounds ss ∧
      ∀ look, Stmt.observeAll rounds look (Stmt.ungroupedAll ss) = Stmt.observeAll rounds look ss := by
  have hobserve := fun look => Stmt.observeAll_ungroupedAll rounds look ss
  refine ⟨fun e he => ?_, ?_, hobserve⟩
  · rw [Stmt.expressions_ungroupedAll] at he
    obtain ⟨e, -, rfl⟩ := List.mem_map.1 he
    exact e.hasGrouping_ungrouped
  · have hpure := hobserve (pure ())
    rwa [Stmt.observeAll_pure, Stmt.observeAll_pure] at hpure

end Lox
