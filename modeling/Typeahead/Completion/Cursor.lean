import Typeahead.Completion.Suggestion

/-!
# Completion at a cursor

An editor asks for completions of a line at a byte position.  Only the text before the cursor counts; a cursor
beyond the end or inside a character is moved back to the nearest place between characters.
-/

namespace Typeahead

/-- The longest beginning of a text that takes at most `bytes` bytes. -/
def takeBytes : Nat → List Char → List Char
  | _, [] => []
  | bytes, c :: cs => if c.utf8Size ≤ bytes then c :: takeBytes (bytes - c.utf8Size) cs else []

/-- What `takeBytes` leaves. -/
def dropBytes : Nat → List Char → List Char
  | _, [] => []
  | bytes, c :: cs => if c.utf8Size ≤ bytes then dropBytes (bytes - c.utf8Size) cs else c :: cs

/-- Nothing is lost between the two parts. -/
theorem takeBytes_append_dropBytes (bytes : Nat) (cs : List Char) :
    takeBytes bytes cs ++ dropBytes bytes cs = cs := by
  induction cs generalizing bytes with
  | nil => rfl
  | cons c cs ih =>
    unfold takeBytes dropBytes
    split
    · simp [ih]
    · rfl

/-- The first part takes no more bytes than allowed. -/
theorem byteLength_takeBytes_le (bytes : Nat) (cs : List Char) : byteLength (takeBytes bytes cs) ≤ bytes := by
  induction cs generalizing bytes with
  | nil => simp [takeBytes, byteLength]
  | cons c cs ih =>
    unfold takeBytes
    split
    · have := ih (bytes - c.utf8Size)
      simp only [byteLength]
      omega
    · simp [byteLength]

/-- The completions of a line at a cursor: where the text to replace begins, and the suggestions for it. -/
structure Completion where
  start : Nat
  suggestions : List Suggestion
  deriving Repr, DecidableEq

/-- A change that an editor offers: `text` replaces the bytes from `start` to `stop`. -/
structure Edit where
  text : String
  /-- The name of the token that the text would be. -/
  description : String
  start : Nat
  stop : Nat
  /-- Whether a blank is to follow the text. -/
  appendBlank : Bool
  deriving Repr, DecidableEq

namespace Grammar

/-- The completions of `line` at the byte `position`.  A text before the cursor that has no report has no
completions either. -/
def complete (g : Grammar) (options : Options) (line : String) (position : Nat) : Completion :=
  let before := takeBytes position line.toList
  let cursor := byteLength before
  match g.suggest options (String.ofList before) with
  | .error _ => ⟨cursor, []⟩
  | .ok report => ⟨(report.unfinished.map (·.start)).getD cursor, report.suggestions⟩

/-- The edits that an editor offers at a cursor.  Each replaces the unfinished text up to the cursor. -/
def edits (g : Grammar) (options : Options) (line : String) (position : Nat) : List Edit :=
  let completion := g.complete options line position
  let stop := max (min position line.utf8ByteSize) completion.start
  completion.suggestions.map fun s =>
    { text := s.text, description := g.displayName s.kind, start := completion.start, stop, appendBlank := true }

end Grammar

end Typeahead
