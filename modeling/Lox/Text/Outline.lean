namespace Lox.Text

def call (label : String) (args : List String) : String :=
  label ++ "(" ++ ", ".intercalate args ++ ")"

def bracketed (items : List String) : String := "[" ++ ", ".intercalate items ++ "]"

def pad (level : Nat) : String := String.ofList (List.replicate (4 * level) ' ')

/-- A label whose fields stand one level further in. -/
def block (level : Nat) (label : String) (fields : List (String × String)) : String :=
  let field := fun (name, value) => "\n" ++ pad (level + 1) ++ name ++ "=" ++ value ++ ","
  label ++ "(" ++ String.join (fields.map field) ++ "\n" ++ pad level ++ ")"

/-- The list in a field of a block at `level`: its items stand two levels further in than the block.
-/
def listed (level : Nat) (items : List String) : String :=
  if items.isEmpty then "[]"
  else "[" ++ String.join (items.map fun t => "\n" ++ pad (level + 2) ++ t ++ ",") ++
    "\n" ++ pad (level + 1) ++ "]"

end Lox.Text
