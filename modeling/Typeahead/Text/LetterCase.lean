import Typeahead.Text.Alphabetic
import Typeahead.Text.CaseIgnorable
import Typeahead.Text.Cased
import Typeahead.Text.Lowercase
import Typeahead.Text.Uppercase

/-!
# Letter case

Full case mapping of characters and strings.  A character maps to a list of characters, because some letters
have a longer image in the other case.  Mapping a string maps each character on its own, with one exception:
a capital sigma that ends a word becomes the final small sigma (`lowercase`).
-/

namespace Typeahead.Text

/-- The image of `c`: its expansion if it has one, else the end of its run, else `c` itself. -/
def caseImage (runs : List CaseRun) (expansions : List (Nat × List Nat)) (c : Char) : List Char :=
  match CaseRun.image? runs c.toNat with
  | some code => [Char.ofNat code]
  | none =>
    if c.toNat < 128 then [c]
    else match expansions.lookup c.toNat with
      | some codes => codes.map Char.ofNat
      | none => [c]

/-- The lowercase image of a character. -/
def lowercaseChar (c : Char) : List Char := caseImage lowercaseRuns lowercaseExpansions c

/-- The uppercase image of a character. -/
def uppercaseChar (c : Char) : List Char := caseImage uppercaseRuns uppercaseExpansions c

/-- Letters, in the wide sense of the Unicode property Alphabetic. -/
def isAlphabetic (c : Char) : Bool := CodeRange.covers alphabeticRanges c.toNat

/-- Characters that have a case. -/
def isCased (c : Char) : Bool := CodeRange.covers casedRanges c.toNat

/-- Characters that are looked through when the neighbours of a letter are inspected. -/
def isCaseIgnorable (c : Char) : Bool := CodeRange.covers caseIgnorableRanges c.toNat

/-- Whether the first character that is not case-ignorable has a case. -/
def beginsCased (cs : List Char) : Bool :=
  match cs.dropWhile isCaseIgnorable with
  | c :: _ => isCased c
  | [] => false

/-- A sigma ends a word when a cased character stands before it and none follows it.
`before` is the text to the left, nearest character first. -/
def endsWord (before after : List Char) : Bool := beginsCased before && !beginsCased after

/-- Lowers `rest`, which stands after `before` (nearest character first). -/
def lowercaseFrom (before : List Char) : List Char → List Char
  | [] => []
  | c :: rest =>
    let image := if c = 'Σ' then [if endsWord before rest then 'ς' else 'σ'] else lowercaseChar c
    image ++ lowercaseFrom (c :: before) rest

/-- The text in lower case. -/
def lowercase (s : String) : String := String.ofList (lowercaseFrom [] s.toList)

/-- The text in upper case. -/
def uppercase (s : String) : String := String.ofList (s.toList.flatMap uppercaseChar)

end Typeahead.Text
