import Lox.Number.Decimal
import Lox.Text.Quoted

namespace Lox

inductive Value
  | nil
  | bool (b : Bool)
  | num (x : Float)
  | str (s : String)

namespace Value

/-- Only `nil` and `false` count as false. -/
def isTruthy : Value → Bool
  | nil => false
  | bool b => b
  | num _ => true
  | str _ => true

def isNumber : Value → Bool
  | num _ => true
  | _ => false

/-- Values of different kinds are never the same. Numbers compare as numbers: the two zeros are the
same, and a number that is none is not the same as itself. -/
def same : Value → Value → Bool
  | nil, nil => true
  | bool a, bool b => a == b
  | num x, num y => x == y
  | str s, str t => s == t
  | _, _ => false

def text : Value → String
  | nil => "nil"
  | bool b => if b then "true" else "false"
  | num x => Number.text x
  | str s => s

def inspect : Value → String
  | nil => "None"
  | bool b => if b then "True" else "False"
  | num x => Number.inspect x
  | str s => Text.quoted s

end Value

end Lox
