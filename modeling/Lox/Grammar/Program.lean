import Lox.Grammar.Statement

namespace Lox

namespace Grammar

/-- The error of a fault where `rest` was left. The token to blame is the next one, at the end of
input `stop`. -/
def Fault.toError (stop : Token) (rest : List Token) : Fault → SyntaxError
  | unmatched => .unmatched (rest.headD stop) "Expect expression."
  | expected kind message => .expected kind (rest.headD stop) message
  | badTarget equals => .badTarget equals

def startsStatement : Kind → Bool
  | .kwClass | .kwFor | .kwFun | .kwIf | .kwPrint | .kwReturn | .kwVar | .kwWhile => true
  | _ => false

/-- Passes a token, and then all up to and with a semicolon or up to a keyword that starts a
statement. -/
def recover : List Token → List Token
  | [] => []
  | t :: ts =>
    if t.kind = .semicolon then ts
    else match ts with
      | [] => []
      | u :: us => if startsStatement u.kind then u :: us else recover (u :: us)

/-- The statements and errors of at most `n` tokens, in order. -/
def program (stop : Token) : Nat → List Token → List (Except SyntaxError Stmt)
  | _, [] => []
  | 0, _ => []
  | n + 1, t :: ts =>
    match item (expression n) (statement (n + 1)) (t :: ts) with
    | .ok s rest => .ok s :: program stop n rest
    | .fail fault rest => .error (fault.toError stop rest) :: program stop n (recover rest)

def error? : Except SyntaxError Stmt → Option SyntaxError
  | .ok _ => none
  | .error e => some e

end Grammar

structure Parse where
  statements : List Stmt
  errors : List SyntaxError

def parse (tokens : List Token) : Parse :=
  let body := tokens.takeWhile fun t => !t.isEof
  let stop := (tokens.dropWhile fun t => !t.isEof).headD ⟨.eof, "", .nil, 1⟩
  let results := Grammar.program stop body.length body
  { statements := results.filterMap Except.toOption
    errors := results.filterMap Grammar.error? }

theorem parse_append_stop {body after : List Token} {stop : Token} (hb : ∀ t ∈ body, t.kind ≠ .eof)
    (hs : stop.kind = .eof) :
    parse (body ++ stop :: after) =
      ⟨(Grammar.program stop body.length body).filterMap Except.toOption,
        (Grammar.program stop body.length body).filterMap Grammar.error?⟩ := by
  let inside : Token → Bool := fun t => !t.isEof
  have hbody : ∀ t ∈ body, inside t = true := fun t ht => by simpa [inside, Token.isEof] using hb t ht
  have hstop : ¬ inside stop = true := by simp [inside, Token.isEof, hs]
  have ht : (body ++ stop :: after).takeWhile inside = body := by
    rw [List.takeWhile_append_of_pos hbody, List.takeWhile_cons_of_neg hstop, List.append_nil]
  have hd : (body ++ stop :: after).dropWhile inside = stop :: after := by
    rw [List.dropWhile_append_of_pos hbody, List.dropWhile_cons_of_neg hstop]
  rw [parse, ht, hd, List.headD_cons]

end Lox
