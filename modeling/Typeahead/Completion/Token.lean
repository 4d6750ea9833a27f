import Typeahead.Grammar.Basic
import Typeahead.Network.Closure

/-!
# Tokens of a text

A text is split into confirmed tokens and an unfinished rest.  At each place all tokens of the grammar are tried
at once (`scan`); the longest match wins, and of several tokens that match the same text the one with the lowest
kind.  What reaches the end of the text, or could still become a longer token there, stays unfinished.
-/

namespace Typeahead

/-- The number of bytes that characters take in UTF-8. -/
def byteLength : List Char → Nat
  | [] => 0
  | c :: cs => c.utf8Size + byteLength cs

/-- A confirmed token: its kind, its text and the bytes from `start` to `stop` that it covers. -/
structure Token where
  kind : TokenKind
  text : String
  start : Nat
  stop : Nat
  deriving Repr, DecidableEq

/-- The rest of a text that is not confirmed yet, from the byte `start` on. -/
structure Unfinished where
  text : String
  start : Nat
  deriving Repr, DecidableEq

/-- The tokens of a text. -/
structure Tokenization where
  tokens : List Token := []
  unfinished : Option Unfinished := none
  stats : Stats := {}
  deriving Repr, DecidableEq

/-- No token matches the text from the byte `position` on; `snippet` shows how that text begins. -/
structure LexicalError where
  position : Nat
  snippet : String
  deriving Repr, DecidableEq

/-- The wording of a lexical error. -/
def LexicalError.message (e : LexicalError) : String :=
  s!"Lexical error at offset {e.position}: unrecognized input '{e.snippet}'"

/-- How many characters a lexical error quotes. -/
def snippetLength : Nat := 20

/-- A match of a token: its kind, and how many characters it has beyond the first. -/
structure Munch where
  kind : TokenKind
  extra : Nat
  deriving Repr, DecidableEq

/-- The outcome of a scan. -/
structure Scan where
  /-- The longest match. -/
  best : Option Munch
  /-- Whether some token could go on when the text ran out. -/
  live : Bool
  stats : Stats
  deriving Repr, DecidableEq

namespace Grammar

/-- The configurations from which all tokens are tried at once. -/
def tokenSeeds (g : Grammar) : List Configuration :=
  g.tokens.toList.filterMap fun t => (g.lexical.start? t.rule).map .initial

/-- The lowest kind among the tokens that a closure completes. -/
def matchedKind? (g : Grammar) (reached : Closure) : Option TokenKind :=
  (reached.completed.filterMap fun c => (g.lexical.owner? c.state).bind g.kindOfRule?).min?

/-- Whether tokens of a kind are dropped once they are read. -/
def skips (g : Grammar) (kind : TokenKind) : Bool :=
  match g.token? kind with
  | some t => t.skip
  | none => false

/-- Reads on from `frontier` after `read` characters, for as long as any token can go on. -/
def scanFrom (g : Grammar) (limits : Limits) (frontier : List Configuration) (read : Nat) (best : Option Munch)
    (stats : Stats) : List Char → Scan
  | [] => ⟨best, !frontier.isEmpty, stats⟩
  | c :: cs =>
    match g.lexical.step frontier c with
    | [] => ⟨best, false, stats⟩
    | configs =>
      let reached := g.lexical.closure limits configs
      let best := match g.matchedKind? reached with
        | some kind => some ⟨kind, read⟩
        | none => best
      scanFrom g limits reached.frontier (read + 1) best (stats + reached.stats) cs

/-- Tries all tokens at the beginning of `cs`. -/
def scan (g : Grammar) (limits : Limits) (cs : List Char) : Scan :=
  let reached := g.lexical.closure limits g.tokenSeeds
  scanFrom g limits reached.frontier 0 none reached.stats cs

/-- The tokens of a text that begins at the byte `position`. -/
def tokenizeFrom (g : Grammar) (limits : Limits) (position : Nat) (cs : List Char) :
    Except LexicalError Tokenization :=
  match cs with
  | [] => .ok {}
  | c :: cs =>
    let scanned := g.scan limits (c :: cs)
    let unfinished := some ⟨String.ofList (c :: cs), position⟩
    match scanned.best with
    | none =>
      if scanned.live then .ok ⟨[], unfinished, scanned.stats⟩
      else .error ⟨position, String.ofList ((c :: cs).take snippetLength)⟩
    | some munch =>
      let lexeme := c :: cs.take munch.extra
      let rest := cs.drop munch.extra
      if g.skips munch.kind && rest.isEmpty then .ok ⟨[], none, scanned.stats⟩
      else if rest.isEmpty || scanned.live then .ok ⟨[], unfinished, scanned.stats⟩
      else do
        let stop := position + byteLength lexeme
        let following ← tokenizeFrom g limits stop rest
        let token : Token := ⟨munch.kind, String.ofList lexeme, position, stop⟩
        pure { following with
          tokens := if g.skips munch.kind then following.tokens else token :: following.tokens
          stats := scanned.stats + following.stats }
termination_by cs.length
decreasing_by
  simp only [List.length_drop, List.length_cons]
  omega

/-- The tokens of a text. -/
def tokenize (g : Grammar) (limits : Limits) (text : String) : Except LexicalError Tokenization :=
  g.tokenizeFrom limits 0 text.toList

end Grammar

end Typeahead
