import Lox.Grammar.Statement

namespace Lox

namespace Grammar

/-- How tightly expressions bind, from the loosest to the tightest. Only the comma is no level of a
tree: its left operands are dropped. -/
inductive Level
  | comma | assignment | disjunction | conjunction | equality | comparison | term | factor | unary
  | primary
  deriving DecidableEq

namespace Level

def rank : Level → Nat
  | comma => 0
  | assignment => 1
  | disjunction => 2
  | conjunction => 3
  | equality => 4
  | comparison => 5
  | term => 6
  | factor => 7
  | unary => 8
  | primary => 9

instance : LE Level := ⟨fun l m => l.rank ≤ m.rank⟩

instance : LT Level := ⟨fun l m => l.rank < m.rank⟩

instance (l m : Level) : Decidable (l ≤ m) := inferInstanceAs (Decidable (l.rank ≤ m.rank))

instance (l m : Level) : Decidable (l < m) := inferInstanceAs (Decidable (l.rank < m.rank))

/-- The level at which an operator goes on with an expression; `primary` for what is no such
operator. -/
def ofOperator : Kind → Level
  | .comma => comma
  | .equal => assignment
  | .kwOr => disjunction
  | .kwAnd => conjunction
  | .bangEqual | .equalEqual => equality
  | .greater | .greaterEqual | .less | .lessEqual => comparison
  | .minus | .plus => term
  | .slash | .star => factor
  | _ => primary

end Level

def isBinary (k : Kind) : Bool := isEquality k || isComparison k || isTerm k || isFactor k

def isLogical (k : Kind) : Bool := k == .kwOr || k == .kwAnd

def literal? (t : Token) : Option Value :=
  match t.kind with
  | .kwFalse => some (.bool false)
  | .kwTrue => some (.bool true)
  | .kwNil => some .nil
  | .number | .string => some t.literal
  | _ => none

end Grammar

/-- How the tokens that a tree does not keep are written. -/
structure Spelling where
  lexeme : Kind → Value → String
  line : Int

namespace Spelling

def token (spelling : Spelling) (kind : Kind) (literal : Value) : Token :=
  ⟨kind, spelling.lexeme kind literal, literal, spelling.line⟩

def mark (spelling : Spelling) (kind : Kind) : Token := spelling.token kind .nil

def literal (spelling : Spelling) : Value → Token
  | .nil => spelling.mark .kwNil
  | .bool b => spelling.mark (if b then .kwTrue else .kwFalse)
  | .num x => spelling.token .number (.num x)
  | .str s => spelling.token .string (.str s)

end Spelling

open Grammar

namespace Expr

def level : Expr → Level
  | assign .. => .assignment
  | binary _ t _ => .ofOperator t.kind
  | logical _ t _ => .ofOperator t.kind
  | unary .. => .unary
  | _ => .primary

/-- Left operands bind at least as tightly as their operator and right operands more tightly, so
that operators of one level associate to the left. -/
def isWellShaped : Expr → Bool
  | literal _ => true
  | name t => t.kind == .identifier
  | assign t e => t.kind == .identifier && e.isWellShaped
  | unary t e => isUnary t.kind && .unary ≤ e.level && e.isWellShaped
  | binary a t b =>
    isBinary t.kind && .ofOperator t.kind ≤ a.level && .ofOperator t.kind < b.level &&
      a.isWellShaped && b.isWellShaped
  | logical a t b =>
    isLogical t.kind && .ofOperator t.kind ≤ a.level && .ofOperator t.kind < b.level &&
      a.isWellShaped && b.isWellShaped
  | grouping e => e.isWellShaped

def tokens (spelling : Spelling) : Expr → List Token
  | literal v => [spelling.literal v]
  | name t => [t]
  | assign t e => t :: spelling.mark .equal :: e.tokens spelling
  | unary t e => t :: e.tokens spelling
  | binary a t b => a.tokens spelling ++ t :: b.tokens spelling
  | logical a t b => a.tokens spelling ++ t :: b.tokens spelling
  | grouping e => spelling.mark .leftParen :: e.tokens spelling ++ [spelling.mark .rightParen]

end Expr

namespace Stmt

def isDeclaration : Stmt → Bool
  | declare .. => true
  | _ => false

/-- Whether an `else` right behind the statement would belong to a conditional inside of it. -/
def endsOpen : Stmt → Bool
  | ifThen .. => true
  | ifElse _ _ no => no.endsOpen
  | whileLoop _ body => body.endsOpen
  | _ => false

mutual

/-- Declarations stand in blocks only, and every `else` belongs to the nearest conditional. -/
def isWellShaped : Stmt → Bool
  | expression e => e.isWellShaped
  | print e => e.isWellShaped
  | declare t e => t.kind == .identifier && e.isWellShaped
  | block ss => areWellShaped ss
  | ifThen c s => c.isWellShaped && !s.isDeclaration && s.isWellShaped
  | ifElse c s t =>
    c.isWellShaped && !s.isDeclaration && !s.endsOpen && s.isWellShaped && !t.isDeclaration &&
      t.isWellShaped
  | whileLoop c s => c.isWellShaped && !s.isDeclaration && s.isWellShaped

def areWellShaped : List Stmt → Bool
  | [] => true
  | s :: ss => s.isWellShaped && areWellShaped ss

end

variable (spelling : Spelling)

mutual

def tokens : Stmt → List Token
  | expression e => e.tokens spelling ++ [spelling.mark .semicolon]
  | print e => spelling.mark .kwPrint :: e.tokens spelling ++ [spelling.mark .semicolon]
  | declare t e =>
    spelling.mark .kwVar :: t :: spelling.mark .equal :: e.tokens spelling ++ [spelling.mark .semicolon]
  | block ss => spelling.mark .leftBrace :: tokensAll ss ++ [spelling.mark .rightBrace]
  | ifThen c s =>
    spelling.mark .kwIf :: spelling.mark .leftParen :: c.tokens spelling ++
      spelling.mark .rightParen :: tokens s
  | ifElse c s t =>
    spelling.mark .kwIf :: spelling.mark .leftParen :: c.tokens spelling ++
      spelling.mark .rightParen :: (tokens s ++ spelling.mark .kwElse :: tokens t)
  | whileLoop c s =>
    spelling.mark .kwWhile :: spelling.mark .leftParen :: c.tokens spelling ++
      spelling.mark .rightParen :: tokens s

def tokensAll : List Stmt → List Token
  | [] => []
  | s :: ss => tokens s ++ tokensAll ss

end

end Stmt

end Lox
