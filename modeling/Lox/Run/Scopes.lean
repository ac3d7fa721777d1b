import Lox.Problem

namespace Lox

/-- The bindings of one scope, one for each name, in the order in which the names were first
defined. -/
abbrev Scope := List (String × Value)

namespace Scope

def get? (name : String) : Scope → Option Value
  | [] => none
  | (x, v) :: s => if x = name then some v else get? name s

def put (name : String) (value : Value) : Scope → Scope
  | [] => [(name, value)]
  | (x, v) :: s => if x = name then (x, value) :: s else (x, v) :: put name value s

theorem get?_put (x y : String) (v : Value) (s : Scope) :
    (s.put x v).get? y = if x = y then some v else s.get? y := by
  induction s with
  | nil => rfl
  | cons b s ih =>
    obtain ⟨z, w⟩ := b
    by_cases h : z = x <;> by_cases hy : z = y <;> grind [put, get?]

def names (s : Scope) : List String := s.map Prod.fst

theorem names_put (x : String) (v : Value) (s : Scope) :
    (s.put x v).names = if x ∈ s.names then s.names else s.names ++ [x] := by
  induction s with
  | nil => rfl
  | cons b s ih =>
    obtain ⟨z, w⟩ := b
    by_cases h : z = x <;> grind [put, names]

def inspect (s : Scope) : String :=
  "\x7b" ++ ", ".intercalate (s.map fun (x, v) => Text.quoted x ++ ": " ++ v.inspect) ++ "\x7d"

end Scope

inductive Scopes
  | root (s : Scope)
  | nested (s : Scope) (outer : Scopes)

namespace Scopes

def empty : Scopes := root []

def toList : Scopes → List Scope
  | root s => [s]
  | nested s outer => s :: outer.toList

def globals : Scopes → Scope
  | root s => s
  | nested _ outer => outer.globals

def isGlobal : Scopes → Bool
  | root _ => true
  | nested .. => false

def push (scopes : Scopes) : Scopes := nested [] scopes

/-- The chain without its innermost scope. The outermost scope stays. -/
def pop : Scopes → Scopes
  | root s => root s
  | nested _ outer => outer

def define (name : String) (value : Value) : Scopes → Scopes
  | root s => root (s.put name value)
  | nested s outer => nested (s.put name value) outer

def get? (name : String) : Scopes → Option Value
  | root s => s.get? name
  | nested s outer => (s.get? name).or (outer.get? name)

def assign? (name : String) (value : Value) : Scopes → Option Scopes
  | root s => if (s.get? name).isSome then some (root (s.put name value)) else none
  | nested s outer =>
    if (s.get? name).isSome then some (nested (s.put name value) outer)
    else (outer.assign? name value).map (nested s)

def read (name : Token) (scopes : Scopes) : Except RuntimeError Value :=
  match scopes.get? name.lexeme with
  | some v => .ok v
  | none => .error (.undefined name)

def write (name : Token) (value : Value) (scopes : Scopes) : Except RuntimeError Scopes :=
  match scopes.assign? name.lexeme value with
  | some scopes => .ok scopes
  | none => .error (.undefined name)

def inspect : Scopes → String
  | root s => "Environment(" ++ s.inspect ++ ", enclosing=None)"
  | nested s outer => "Environment(" ++ s.inspect ++ ", enclosing=" ++ outer.inspect ++ ")"

end Scopes

end Lox
