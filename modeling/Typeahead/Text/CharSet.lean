import Typeahead.Text.LetterCase

/-!
# Character sets

The sets of characters that one step of a lexical rule accepts, and the class bodies that describe them in a
grammar, such as `A-Za-z_` or `0-9`.
-/

namespace Typeahead.Text

/-- The characters from `lo` to `hi`, both included; none if `hi` comes first. -/
structure CharRange where
  lo : Char
  hi : Char
  deriving Repr, DecidableEq

/-- Whether `c` lies in the range. -/
def CharRange.contains (r : CharRange) (c : Char) : Bool := r.lo ≤ c && c ≤ r.hi

/-- A set of characters. -/
inductive CharSet where
  /-- One letter in either case; the declared spelling is kept. -/
  | anyCase (declared : Char)
  /-- The characters inside one of the ranges. -/
  | ranges (rs : List CharRange)
  /-- The characters outside all of the ranges. -/
  | outside (rs : List CharRange)
  deriving Repr, DecidableEq

namespace CharSet

/-- The set that holds exactly the given characters. -/
def ofList (cs : List Char) : CharSet := .ranges (cs.map fun c => ⟨c, c⟩)

/-- Membership.  Two letters agree up to case when their lowercase or their uppercase images are equal. -/
def contains : CharSet → Char → Bool
  | anyCase d, c => d == c || lowercaseChar d == lowercaseChar c || uppercaseChar d == uppercaseChar c
  | ranges rs, c => rs.any (·.contains c)
  | outside rs, c => !rs.any (·.contains c)

/-- The one character a set stands for, if there is one: the declared spelling, or the member of a one-character
range. -/
def spelling? : CharSet → Option Char
  | anyCase d => some d
  | ranges [r] => if r.lo = r.hi then some r.lo else none
  | _ => none

end CharSet

/-! ### Class bodies -/

/-- What can be wrong with a class body. -/
inductive ClassError where
  | danglingEscape
  | empty
  | reversedRange
  deriving Repr, DecidableEq

/-- The wording of a class error. -/
def ClassError.message : ClassError → String
  | danglingEscape => "dangling escape"
  | empty => "empty class"
  | reversedRange => "range end precedes start"

/-- A character of a class body after its escapes are read; only an unescaped dash makes a range. -/
structure ClassItem where
  char : Char
  escaped : Bool
  deriving Repr, DecidableEq

/-- The character that a backslash and `c` stand for. -/
def unescape : Char → Char
  | 'n' => '\n'
  | 'r' => '\r'
  | 't' => '\t'
  | 's' => ' '
  | c => c

/-- Reads the escapes of a class body. -/
def classItems : List Char → Except ClassError (List ClassItem)
  | [] => .ok []
  | ['\\'] => .error .danglingEscape
  | '\\' :: c :: rest => (classItems rest).map (⟨unescape c, true⟩ :: ·)
  | c :: rest => (classItems rest).map (⟨c, false⟩ :: ·)

/-- Groups items from the left: three of them with an unescaped dash in the middle form a range, otherwise one
stands alone. -/
def groupItems : List ClassItem → Except ClassError (List CharRange)
  | [] => .ok []
  | a :: ⟨'-', false⟩ :: b :: rest =>
    if b.char < a.char then .error .reversedRange else (groupItems rest).map (⟨a.char, b.char⟩ :: ·)
  | a :: rest => (groupItems rest).map (⟨a.char, a.char⟩ :: ·)

/-- The ranges that a class body describes. -/
def classRanges (body : String) : Except ClassError (List CharRange) :=
  match classItems body.toList with
  | .error e => .error e
  | .ok [] => .error .empty
  | .ok items => groupItems items

end Typeahead.Text
