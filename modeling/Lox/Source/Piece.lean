import Lox.Problem

namespace Lox

/-- A token, something between tokens, or a mistake. -/
inductive Piece
  | token (kind : Kind) (text : List Char) (literal : Value)
  | gap (text : List Char)
  | stray (c : Char)
  | unclosed (text : List Char)

namespace Piece

def text : Piece → List Char
  | token _ t _ => t
  | gap t => t
  | stray c => [c]
  | unclosed t => t

def isLetter (c : Char) : Bool := c.isAlpha || c == '_'

def isWordChar (c : Char) : Bool := isLetter c || c.isDigit

def isSpace (c : Char) : Bool := c == ' ' || c == '\r' || c == '\t' || c == '\n'

def single? : Char → Option Kind
  | '(' => some .leftParen
  | ')' => some .rightParen
  | '\x7b' => some .leftBrace
  | '\x7d' => some .rightBrace
  | ',' => some .comma
  | '.' => some .dot
  | '-' => some .minus
  | '+' => some .plus
  | ';' => some .semicolon
  | '*' => some .star
  | _ => none

def double? : Char → Option (Kind × Kind)
  | '!' => some (.bang, .bangEqual)
  | '=' => some (.equal, .equalEqual)
  | '<' => some (.less, .lessEqual)
  | '>' => some (.greater, .greaterEqual)
  | _ => none

def throughClose : List Char → List Char
  | [] => []
  | '*' :: '/' :: _ => ['*', '/']
  | c :: cs => c :: throughClose cs

theorem isPrefix_throughClose (cs : List Char) : throughClose cs <+: cs := by
  fun_induction throughClose cs with
  | case1 => exact List.prefix_refl _
  | case2 cs => exact ⟨cs, rfl⟩
  | case3 c cs _ ih => simpa using ih

def ofSlash : List Char → Piece
  | '/' :: cs => gap ('/' :: '/' :: cs.takeWhile (· != '\n'))
  | '*' :: cs => gap ('/' :: '*' :: throughClose cs)
  | _ => token .slash ['/'] .nil

theorem isPrefix_ofSlash (cs : List Char) : (ofSlash cs).text <+: '/' :: cs := by
  unfold ofSlash
  split
  · simpa [text] using List.takeWhile_prefix _
  · simpa [text] using isPrefix_throughClose _
  · simp [text]

/-- After the opening mark. No character is special but the closing mark. -/
def ofQuote (cs : List Char) : Piece :=
  let body := cs.takeWhile (· != '"')
  match cs.dropWhile (· != '"') with
  | [] => unclosed ('"' :: body)
  | _ :: _ => token .string ('"' :: body ++ ['"']) (.str (String.ofList body))

theorem isPrefix_ofQuote (cs : List Char) : (ofQuote cs).text <+: '"' :: cs := by
  have h := List.takeWhile_append_dropWhile (p := (· != '"')) (l := cs)
  unfold ofQuote
  split
  · simpa [text] using List.takeWhile_prefix _
  · rename_i c r hr
    have hc : c = '"' := by
      have := List.head?_dropWhile_not (· != '"') cs
      simpa [hr] using this
    refine ⟨r, ?_⟩
    rw [hr, hc] at h
    simpa [text] using h

/-- A point belongs to a number only if a digit follows it. -/
def fraction : List Char → List Char
  | '.' :: cs => cs.takeWhile Char.isDigit
  | _ => []

theorem isPrefix_fraction (cs : List Char) (h : fraction cs ≠ []) : '.' :: fraction cs <+: cs := by
  unfold fraction at *
  split at *
  · simpa using List.takeWhile_prefix _
  · contradiction

def ofDigit (c : Char) (cs : List Char) : Piece :=
  let whole := c :: cs.takeWhile Char.isDigit
  let places := fraction (cs.dropWhile Char.isDigit)
  let text := if places = [] then whole else whole ++ '.' :: places
  token .number text (.num (Number.ofMagnitude (Number.Decimal.ofChars whole places).magnitude))

theorem isPrefix_ofDigit (c : Char) (cs : List Char) : (ofDigit c cs).text <+: c :: cs := by
  simp only [ofDigit, text]
  split
  · simpa using List.takeWhile_prefix _
  · rename_i h
    obtain ⟨r, hr⟩ := isPrefix_fraction _ h
    refine ⟨r, ?_⟩
    rw [List.append_assoc, hr, List.cons_append, List.takeWhile_append_dropWhile]

def ofLetter (c : Char) (cs : List Char) : Piece :=
  let word := c :: cs.takeWhile isWordChar
  token (Kind.ofWord (String.ofList word)) word .nil

def first (c : Char) (cs : List Char) : Piece :=
  match single? c, double? c with
  | some k, _ => token k [c] .nil
  | none, some (k, k') => if cs.head? = some '=' then token k' [c, '='] .nil else token k [c] .nil
  | none, none =>
    if c = '/' then ofSlash cs
    else if isSpace c then gap [c]
    else if c = '"' then ofQuote cs
    else if c.isDigit then ofDigit c cs
    else if isLetter c then ofLetter c cs
    else stray c

theorem isPrefix_first (c : Char) (cs : List Char) : (first c cs).text <+: c :: cs := by
  unfold first
  split
  · simp [text]
  · split
    · rename_i h
      cases cs <;> simp_all [text]
    · simp [text]
  · split
    · rename_i h; subst h; exact isPrefix_ofSlash cs
    · split
      · simp [text]
      · split
        · rename_i h; subst h; exact isPrefix_ofQuote cs
        · split
          · exact isPrefix_ofDigit c cs
          · split
            · simpa [ofLetter, text] using List.takeWhile_prefix _
            · simp [text]

theorem first_text_ne_nil (c : Char) (cs : List Char) : (first c cs).text ≠ [] := by
  unfold first ofSlash ofQuote ofDigit ofLetter
  repeat' split
  all_goals simp [text]
  split <;> simp

def afterSkip : Nat → List Char → List Piece
  | _, [] => []
  | skip + 1, _ :: cs => afterSkip skip cs
  | 0, c :: cs => first c cs :: afterSkip ((first c cs).text.length - 1) cs

def split (cs : List Char) : List Piece := afterSkip 0 cs

theorem afterSkip_eq_split (n : Nat) (cs : List Char) : afterSkip n cs = split (cs.drop n) := by
  induction n generalizing cs with
  | zero => rfl
  | succ n ih => cases cs <;> simp [afterSkip, split, ih]

theorem split_cons (c : Char) (cs : List Char) :
    split (c :: cs) = first c cs :: split ((c :: cs).drop (first c cs).text.length) := by
  have h := List.length_pos_iff.2 (first_text_ne_nil c cs)
  rw [split, afterSkip, afterSkip_eq_split]
  congr 2
  rw [show (first c cs).text.length = (first c cs).text.length - 1 + 1 by omega, List.drop_succ_cons,
    Nat.add_sub_cancel]

theorem flatMap_text_split (cs : List Char) : (split cs).flatMap text = cs := by
  induction h : cs.length using Nat.strongRecOn generalizing cs with
  | ind n ih =>
    cases cs with
    | nil => rfl
    | cons c cs =>
      have hn := List.length_pos_iff.2 (first_text_ne_nil c cs)
      rw [split_cons, List.flatMap_cons, ih _ _ _ rfl]
      · exact List.prefix_iff_eq_append.1 (isPrefix_first c cs)
      · simp only [List.length_drop, ← h, List.length_cons]
        omega

def newlines (p : Piece) : Nat := p.text.count '\n'

def token? (line : Nat) : Piece → Option Token
  | token k t v => some ⟨k, String.ofList t, v, line + t.count '\n'⟩
  | _ => none

def error? (line : Nat) : Piece → Option LexicalError
  | stray c => some (.unexpected line c)
  | unclosed _ => some (.unterminated line)
  | _ => none

def numbered : Nat → List Piece → List (Nat × Piece)
  | _, [] => []
  | line, p :: ps => (line, p) :: numbered (line + p.newlines) ps

def lineBehind : Nat → List Piece → Nat
  | line, [] => line
  | line, p :: ps => lineBehind (line + p.newlines) ps

theorem lineBehind_eq (line : Nat) (ps : List Piece) :
    lineBehind line ps = line + (ps.flatMap text).count '\n' := by
  induction ps generalizing line with
  | nil => rfl
  | cons p ps ih => rw [lineBehind, ih, List.flatMap_cons, List.count_append, newlines, Nat.add_assoc]

theorem lineBehind_split (cs : List Char) : (lineBehind 1 (split cs) : Int) = 1 + cs.count '\n' := by
  rw [lineBehind_eq, flatMap_text_split]
  rfl

end Piece

end Lox
