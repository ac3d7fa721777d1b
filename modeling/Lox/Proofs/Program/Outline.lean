import Lox.Program.Stmt
import Lox.Text.Blank
import Lox.Proofs.Text.Indentation

namespace Lox

open Text

inductive Node
  | expr (e : Expr)
  | stmt (s : Stmt)

inductive Content
  | token (t : Token)
  | value (v : Value)
  | absent
  | node (n : Node)
  | list (ns : List Node)

namespace Node

def label : Node → String
  | expr (.literal _) => "Literal"
  | expr (.name _) => "Variable"
  | expr (.assign _ _) => "Assign"
  | expr (.unary _ _) => "Unary"
  | expr (.binary _ _ _) => "Binary"
  | expr (.logical _ _ _) => "Logical"
  | expr (.grouping _) => "Grouping"
  | stmt (.expression _) => "Expression"
  | stmt (.print _) => "Print"
  | stmt (.declare _ _) => "Var"
  | stmt (.block _) => "Block"
  | stmt (.ifThen _ _) | stmt (.ifElse _ _ _) => "If"
  | stmt (.whileLoop _ _) => "While"

def fields : Node → List (String × Content)
  | expr (.literal v) => [("value", .value v)]
  | expr (.name t) => [("name", .token t)]
  | expr (.assign t e) => [("name", .token t), ("value", .node (expr e))]
  | expr (.unary t e) => [("operator", .token t), ("right", .node (expr e))]
  | expr (.binary a t b) | expr (.logical a t b) =>
    [("left", .node (expr a)), ("operator", .token t), ("right", .node (expr b))]
  | expr (.grouping e) | stmt (.expression e) | stmt (.print e) => [("expression", .node (expr e))]
  | stmt (.declare t e) => [("name", .token t), ("initializer", .node (expr e))]
  | stmt (.block ss) => [("statements", .list (ss.map stmt))]
  | stmt (.ifThen c s) =>
    [("condition", .node (expr c)), ("then_branch", .node (stmt s)), ("else_branch", .absent)]
  | stmt (.ifElse c s t) =>
    [("condition", .node (expr c)), ("then_branch", .node (stmt s)), ("else_branch", .node (stmt t))]
  | stmt (.whileLoop c s) => [("condition", .node (expr c)), ("body", .node (stmt s))]

def outlineAt (level : Nat) : Node → String
  | expr e => e.outlineAt level
  | stmt s => s.outlineAt level

def outline (level : Nat) : Node → String
  | expr e => e.outline level
  | stmt s => s.outline level

end Node

namespace Content

def nodes : Content → List Node
  | node n => [n]
  | list ns => ns
  | _ => []

def outlineAt (level : Nat) : Content → String
  | token t => t.inspect
  | value v => v.inspect
  | absent => "None"
  | node n => n.outlineAt (level + 1)
  | list ns => listed level (ns.map (Node.outlineAt (level + 2)))

end Content

namespace Node

variable {n m : Node}

theorem outline_eq (level : Nat) (n : Node) : n.outline level = pad level ++ n.outlineAt level := by
  cases n <;> rfl

theorem outlinesAt_eq_map (level : Nat) (ss : List Stmt) :
    Stmt.outlinesAt level ss = (ss.map stmt).map (outlineAt level) := by
  induction ss with
  | nil => rfl
  | cons s ss ih => rw [Stmt.outlinesAt, ih, List.map_cons, List.map_cons, outlineAt]

theorem outlineAt_eq (level : Nat) (n : Node) :
    n.outlineAt level = block level n.label (n.fields.map fun f => (f.1, f.2.outlineAt level)) := by
  cases n with
  | expr e => cases e <;> rfl
  | stmt s =>
    cases s with
    | block ss =>
      rw [outlineAt, Stmt.outlineAt, outlinesAt_eq_map]
      rfl
    | expression | print | declare | ifThen | ifElse | whileLoop => rfl

theorem isOneLine_label (n : Node) : isOneLine n.label = true := by
  apply isOneLine_of_isBasic
  rcases n with e | s
  · cases e <;> simp only [label] <;> decide
  · cases s <;> simp only [label] <;> decide

theorem isOneLine_names (n : Node) : ∀ f ∈ n.fields, isOneLine f.1 = true := by
  have hbasic : (n.fields.all fun f => f.1.toList.all isBasic) = true := by
    rcases n with e | s
    · cases e <;> simp only [fields, List.all_cons, List.all_nil] <;> decide
    · cases s <;> simp only [fields, List.all_cons, List.all_nil] <;> decide
  exact fun f hf => isOneLine_of_isBasic (List.all_eq_true.1 hbasic f hf)

theorem head?_outlineAt (level : Nat) (n : Node) :
    ∃ c, (n.outlineAt level).toList.head? = some c ∧ isBlank c = false := by
  have hlabel : n.label.toList.head?.map isBlank = some false := by
    rcases n with e | s
    · cases e <;> simp only [label] <;> decide
    · cases s <;> simp only [label] <;> decide
  obtain ⟨c, hc, hblank⟩ := Option.map_eq_some_iff.1 hlabel
  refine ⟨c, ?_, hblank⟩
  rw [outlineAt_eq, block_eq, enclosed]
  simp only [String.toList_append, List.append_assoc]
  rw [List.head?_append, hc, Option.some_or]

/-- Without the blanks in front of it, an outline is what stands behind the name of a field. -/
theorem dropWhile_outline (level : Nat) (n : Node) :
    String.ofList ((n.outline level).toList.dropWhile isBlank) = n.outlineAt level := by
  have hpad : ∀ c ∈ (pad level).toList, isBlank c = true := by
    intro c hc
    rw [toList_pad] at hc
    rw [List.eq_of_mem_replicate hc]
    decide
  obtain ⟨c, hc, hblank⟩ := n.head?_outlineAt level
  obtain ⟨cs, hcs⟩ := List.head?_eq_some_iff.1 hc
  rw [outline_eq, String.toList_append, List.dropWhile_append_of_pos hpad, hcs,
    List.dropWhile_cons_of_neg (by simp [hblank]), ← hcs, String.ofList_toList]

def children (n : Node) : List Node := n.fields.flatMap fun f => f.2.nodes

theorem nodes_subset_children {f : String × Content} (h : f ∈ n.fields) : f.2.nodes ⊆ n.children :=
  fun _ hm => List.mem_flatMap.2 ⟨f, h, hm⟩

section Induction

variable {P : Node → Prop} (step : ∀ n, (∀ m ∈ n.children, P m) → P n)
include step

theorem induction_expr (e : Expr) : P (expr e) := by
  induction e with
  | literal v | name t => exact step _ (List.forall_mem_nil _)
  | assign t e ih | unary t e ih | grouping e ih => exact step _ (List.forall_mem_singleton.2 ih)
  | binary a t b iha ihb | logical a t b iha ihb =>
    exact step _ (List.forall_mem_cons.2 ⟨iha, List.forall_mem_singleton.2 ihb⟩)

theorem induction_stmt (s : Stmt) : P (stmt s) := by
  cases s with
  | expression e | print e | declare t e =>
    exact step _ (List.forall_mem_singleton.2 (induction_expr step e))
  | block ss =>
    have hs : ∀ s ∈ ss, P (stmt s) := fun s _ => induction_stmt s
    exact step _ (List.forall_mem_append.2 ⟨List.forall_mem_map.2 hs, List.forall_mem_nil _⟩)
  | ifThen c s | whileLoop c s =>
    exact step _
      (List.forall_mem_cons.2 ⟨induction_expr step c, List.forall_mem_singleton.2 (induction_stmt s)⟩)
  | ifElse c s t =>
    have hbranches :=
      List.forall_mem_cons.2 ⟨induction_stmt s, List.forall_mem_singleton.2 (induction_stmt t)⟩
    exact step _ (List.forall_mem_cons.2 ⟨induction_expr step c, hbranches⟩)

@[elab_as_elim] theorem induction_children (n : Node) : P n := by
  cases n with
  | expr e => exact induction_expr step e
  | stmt s => exact induction_stmt step s

end Induction

end Node

namespace Content

variable {c : Content}

theorem isOneLine_absent (level : Nat) : isOneLine (absent.outlineAt level) = true :=
  isOneLine_of_isBasic (s := "None") (by decide)

theorem outlineAt_add {k : Nat}
    (h : ∀ m ∈ c.nodes, ∀ level, m.outlineAt (k + level) = hanging k (m.outlineAt level)) (level : Nat) :
    c.outlineAt (k + level) = hanging k (c.outlineAt level) := by
  cases c with
  | token t => exact (hanging_of_isOneLine t.isOneLine_inspect).symm
  | value v => exact (hanging_of_isOneLine v.isOneLine_inspect).symm
  | absent => exact (hanging_of_isOneLine (isOneLine_absent level)).symm
  | node n => exact h n List.mem_cons_self (level + 1)
  | list ns =>
    rw [outlineAt, outlineAt, hanging_listed, List.map_map]
    exact congrArg (listed _) (List.map_congr_left fun m hm => h m hm (level + 2))

theorem hasVisibleLines_outlineAt (h : ∀ m ∈ c.nodes, ∀ level, hasVisibleLines (m.outlineAt level) =
    true)
    (level : Nat) : hasVisibleLines (c.outlineAt level) = true := by
  cases c with
  | token t => exact hasVisibleLines_of_isOneLine t.isOneLine_inspect
  | value v => exact hasVisibleLines_of_isOneLine v.isOneLine_inspect
  | absent => exact hasVisibleLines_of_isOneLine (isOneLine_absent level)
  | node n => exact h n List.mem_cons_self (level + 1)
  | list ns => exact hasVisibleLines_listed (List.forall_mem_map.2 fun m hm => h m hm (level + 2))

end Content

namespace Node

variable {n m : Node} {depth : Nat} {front : String}

theorem outlineAt_add (k level : Nat) (n : Node) :
    n.outlineAt (k + level) = hanging k (n.outlineAt level) := by
  induction n using induction_children generalizing level with
  | step n ih =>
    rw [outlineAt_eq, outlineAt_eq,
      hanging_block n.isOneLine_label (List.forall_mem_map.2 n.isOneLine_names), List.map_map]
    refine congrArg (block _ _) (List.map_congr_left fun f hf => ?_)
    rw [Function.comp_apply, Content.outlineAt_add fun m hm => ih m (nodes_subset_children hf hm)]

theorem hanging_outline (level : Nat) (n : Node) : hanging level (n.outline 0) = n.outlineAt level := by
  have hpad : pad 0 = "" := rfl
  rw [outline_eq, hpad, String.empty_append, ← outlineAt_add, Nat.add_zero]

/-- Within `n`, the outline of `m` is `depth` levels further in, behind `front`. -/
inductive Holds : Node → Nat → String → Node → Prop
  | field {n m : Node} {name : String} (h : (name, .node m) ∈ n.fields) : Holds n 1 (name ++ "=") m
  | item {n m : Node} {name : String} {ms : List Node} (h : (name, .list ms) ∈ n.fields) (hm : m ∈ ms) :
      Holds n 2 "" m
  | inner {n m l : Node} {depth depth' : Nat} {front front' : String} (h : Holds n depth front m)
      (h' : Holds m depth' front' l) : Holds n (depth + depth') front' l

theorem isPart_field {name : String} {c : Content} (h : (name, c) ∈ n.fields) (level : Nat) :
    IsPart (pad (level + 1) ++ (name ++ "=" ++ c.outlineAt level)) (n.outline level) := by
  have hf : (name, c.outlineAt level) ∈ n.fields.map fun f => (f.1, f.2.outlineAt level) :=
    List.mem_map_of_mem h
  have hpart := (isPart_block level n.label hf).append (pad level) ""
  rwa [String.append_empty, ← outlineAt_eq, ← outline_eq] at hpart

theorem Holds.isPart (h : Holds n depth front m) (level : Nat) :
    IsPart (indented (level + depth) (front ++ m.outline 0)) (n.outline level) := by
  induction h generalizing level with
  | @field n m name h =>
    have hname : isOneLine (name ++ "=") = true :=
      isOneLine_append_of_isOneLine (n.isOneLine_names _ h) (isOneLine_of_isBasic (by decide))
    rw [indented_eq, hanging_append, hanging_of_isOneLine hname, hanging_outline]
    exact isPart_field h level
  | @item n m name ms h hm =>
    have hlisted :
        IsPart (pad (level + 2) ++ m.outlineAt (level + 2)) ((Content.list ms).outlineAt level) :=
      isPart_listed (List.mem_map_of_mem hm)
    have hvalue := hlisted.append (pad (level + 1) ++ (name ++ "=")) ""
    rw [String.empty_append, indented_eq, hanging_outline]
    refine hvalue.trans ?_
    rw [String.append_empty, String.append_assoc]
    exact isPart_field h level
  | @inner n m l depth depth' front front' _ _ ih ih' =>
    have hinner : IsPart (indented (level + depth) (indented depth' (front' ++ l.outline 0)))
        (indented (level + depth) (front ++ m.outline 0)) := by
      have hpart := (ih' 0).append front ""
      rw [Nat.zero_add, String.append_empty] at hpart
      exact hpart.indented
    rw [indented_indented, Nat.add_assoc] at hinner
    exact hinner.trans (ih level)

theorem hasVisibleLines_outlineAt (level : Nat) (n : Node) :
    hasVisibleLines (n.outlineAt level) = true := by
  induction n using induction_children generalizing level with
  | step n ih =>
    rw [outlineAt_eq]
    refine hasVisibleLines_block n.isOneLine_label
      (List.forall_mem_map.2 fun f hf => ⟨n.isOneLine_names f hf, ?_⟩)
    exact Content.hasVisibleLines_outlineAt (fun m hm => ih m (nodes_subset_children hf hm)) level

/-- The outline of a node at a level is its outline with four spaces a level in front of each line.
The outlines of all that the node holds are among its lines, further in and behind the name of a
field if they are in one. No line ends but in a newline, whatever texts and names the node holds. -/
theorem outline_eq_indented (n : Node) :
    (∀ level, n.outline level = indented level (n.outline 0)) ∧
      (∀ {m : Node} {depth : Nat} {front : String}, Holds n depth front m →
        ∀ level, IsPart (indented (level + depth) (front ++ m.outline 0)) (n.outline level)) ∧
      ∀ level, hasVisibleLines (n.outline level) = true := by
  refine ⟨fun level => ?_, fun h => h.isPart, fun level => ?_⟩
  · rw [outline_eq, indented_eq, hanging_outline]
  · rw [outline_eq, hasVisibleLines_append, hasVisibleLines_of_isOneLine (isOneLine_pad level),
      hasVisibleLines_outlineAt, Bool.and_self]

/-- A condition in a list, which is a text of two lines. -/
theorem outline_eq_indented_condition :
    let text : Expr := .literal (.str "one\ntwo")
    let block : Stmt := .block [.ifThen text (.block [])]
    Holds (stmt block) 3 "condition=" (expr text) ∧
      (expr text).outline 0 = "Literal(\n    value='one\\ntwo',\n)" ∧
      indented 4 "condition=Literal(\n    value='one\\ntwo',\n)" =
        "                condition=Literal(\n                    value='one\\ntwo',\n                )" ∧
      IsPart (indented 4 "condition=Literal(\n    value='one\\ntwo',\n)") (block.outline 1) := by
  intro text block
  have hitem : Holds (stmt block) 2 "" (stmt (.ifThen text (.block []))) :=
    .item List.mem_cons_self List.mem_cons_self
  have hfield : Holds (stmt (.ifThen text (.block []))) 1 ("condition" ++ "=") (expr text) :=
    .field List.mem_cons_self
  have hholds : Holds (stmt block) 3 "condition=" (expr text) := hitem.inner hfield
  have htext : (expr text).outline 0 = "Literal(\n    value='one\\ntwo',\n)" := by decide +kernel
  have hpart := (outline_eq_indented (stmt block)).2.1 hholds 1
  rw [htext] at hpart
  exact ⟨hholds, htext, by decide +kernel, hpart⟩

end Node

end Lox
