import Lox.Source.Piece

namespace Lox

/-- What the pieces of a source come to. The tokens end with one of kind `eof` on the line behind
the last piece. -/
structure Scan where
  tokens : List Token
  errors : List LexicalError

def scan (source : String) : Scan :=
  let ps := Piece.split source.toList
  let numbered := Piece.numbered 1 ps
  { tokens := numbered.filterMap (fun (n, p) => p.token? n) ++ [⟨.eof, "", .nil, Piece.lineBehind 1 ps⟩]
    errors := numbered.filterMap fun (n, p) => p.error? n }

theorem scan_tokens (source : String) : (scan source).tokens =
    ((Piece.numbered 1 (Piece.split source.toList)).filterMap fun (n, p) => p.token? n) ++
      [⟨.eof, "", .nil, 1 + source.toList.count '\n'⟩] := by
  rw [← Piece.lineBehind_split, scan]

/-- Whether more braces are opened than closed, so that no program can end here. -/
def hasOpenBrace (source : String) : Bool :=
  let kinds := (scan source).tokens.map Token.kind
  kinds.count .rightBrace < kinds.count .leftBrace

end Lox
