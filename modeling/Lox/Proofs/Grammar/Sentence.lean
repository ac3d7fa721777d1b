import Lox.Source.Token

namespace Lox.Grammar

/-- What the grammar has a rule for. -/
inductive Category
  | program | declaration | statement
  | expression | assignment | disjunction | conjunction | equality | comparison | term | factor | unary
  | primary

/-- The right side of a rule. -/
inductive Form
  | kind (k : Kind)
  | category (c : Category)
  | seq (f g : Form)
  | alt (f g : Form)
  | option (f : Form)
  | many (f : Form)

namespace Form

instance : Append Form := ⟨seq⟩

instance : OrElse Form := ⟨fun f g => alt f (g ())⟩

end Form

open Form

def chained (operand : Category) (operators : Form) : Form :=
  category operand ++ many (operators ++ category operand)

def parenthesized : Form := kind .leftParen ++ category .expression ++ kind .rightParen

def binding : Form := kind .identifier ++ option (kind .equal ++ category .expression) ++ kind .semicolon

def opening : Form :=
  kind .kwVar ++ binding <|> category .expression ++ kind .semicolon <|> kind .semicolon

def production : Category → Form
  | .program => many (category .declaration) ++ kind .eof
  | .declaration => kind .kwVar ++ binding <|> category .statement
  | .statement =>
    category .expression ++ kind .semicolon <|>
    kind .kwPrint ++ category .expression ++ kind .semicolon <|>
    kind .leftBrace ++ many (category .declaration) ++ kind .rightBrace <|>
    kind .kwIf ++ parenthesized ++ category .statement ++
      option (kind .kwElse ++ category .statement) <|>
    kind .kwWhile ++ parenthesized ++ category .statement <|>
    kind .kwFor ++ kind .leftParen ++ opening ++ option (category .expression) ++ kind .semicolon ++
      option (category .expression) ++ kind .rightParen ++ category .statement
  | .expression => chained .assignment (kind .comma)
  | .assignment => kind .identifier ++ kind .equal ++ category .assignment <|> category .disjunction
  | .disjunction => chained .conjunction (kind .kwOr)
  | .conjunction => chained .equality (kind .kwAnd)
  | .equality => chained .comparison (kind .bangEqual <|> kind .equalEqual)
  | .comparison =>
    chained .term (kind .greater <|> kind .greaterEqual <|> kind .less <|> kind .lessEqual)
  | .term => chained .factor (kind .minus <|> kind .plus)
  | .factor => chained .unary (kind .slash <|> kind .star)
  | .unary => (kind .bang <|> kind .minus) ++ category .unary <|> category .primary
  | .primary =>
    kind .number <|> kind .string <|> kind .kwTrue <|> kind .kwFalse <|> kind .kwNil <|>
      kind .identifier <|>
    parenthesized

/-- The lists of kinds of token that a form stands for. -/
inductive Derives : Form → List Kind → Prop
  | kind (k : Kind) : Derives (kind k) [k]
  | category {c : Category} {w : List Kind} (h : Derives (production c) w) : Derives (category c) w
  | seq {f g : Form} {v w : List Kind} (hf : Derives f v) (hg : Derives g w) : Derives (seq f g) (v ++ w)
  | left {f g : Form} {w : List Kind} (h : Derives f w) : Derives (alt f g) w
  | right {f g : Form} {w : List Kind} (h : Derives g w) : Derives (alt f g) w
  | absent {f : Form} : Derives (option f) []
  | present {f : Form} {w : List Kind} (h : Derives f w) : Derives (option f) w
  | nil {f : Form} : Derives (many f) []
  | cons {f : Form} {v w : List Kind} (hf : Derives f v) (hm : Derives (many f) w) :
    Derives (many f) (v ++ w)

end Lox.Grammar
