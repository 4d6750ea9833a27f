import Typeahead.Completion.Cursor

/-!
# Highlighting

A line is shown in pieces: literal tokens as keywords, other tokens as values, text between tokens and the
unfinished rest plain, and text that no token matches as rejected.
-/

namespace Typeahead

/-- How a piece of a line is shown. -/
inductive PieceStyle where
  | plain
  | keyword
  | value
  | rejected
  deriving Repr, DecidableEq

/-- A piece of a line. -/
structure Piece where
  style : PieceStyle
  text : String
  deriving Repr, DecidableEq

/-- A piece of plain text, unless the text is empty. -/
def plainPiece : List Char → List Piece
  | [] => []
  | cs => [⟨.plain, String.ofList cs⟩]

namespace Grammar

/-- How a token is shown. -/
def styleOf (g : Grammar) (kind : TokenKind) : PieceStyle :=
  match g.token? kind with
  | some t => if t.isLiteral then .keyword else .value
  | none => .value

/-- The pieces of `rest`, which begins at the byte `cursor` and holds the tokens. -/
def piecesFrom (g : Grammar) (cursor : Nat) (rest : List Char) : List Token → List Piece
  | [] => plainPiece rest
  | t :: ts =>
    let gap := t.start - cursor
    plainPiece (takeBytes gap rest) ++ ⟨g.styleOf t.kind, t.text⟩ ::
      piecesFrom g t.stop (dropBytes (t.stop - t.start) (dropBytes gap rest)) ts

/-- The pieces of a line; together they are the line. -/
def highlight (g : Grammar) (limits : Limits) (line : String) : List Piece :=
  match g.tokenize limits line with
  | .ok read => g.piecesFrom 0 line.toList read.tokens
  | .error e =>
    plainPiece (takeBytes e.position line.toList) ++
      [⟨.rejected, String.ofList (dropBytes e.position line.toList)⟩]

/-- The pieces of a line, or the line as one plain piece when highlighting is turned off. -/
def display (g : Grammar) (enabled : Bool) (limits : Limits) (line : String) : List Piece :=
  if enabled then g.highlight limits line else [⟨.plain, line⟩]

end Grammar

end Typeahead
