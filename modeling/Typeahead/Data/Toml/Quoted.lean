/-!
# Quoted strings

The form in which a string is written to a TOML document: between quotes if nothing has to be escaped, else between
apostrophes if it can, else over several lines in one of the two ways, else with escapes.
-/

namespace Typeahead.Data.Toml

/-- The length of the longest run of `c`. -/
def longestRun (c : Char) (cs : List Char) : Nat :=
  (cs.foldl (fun (longest, current) x =>
    if x = c then (max longest (current + 1), current + 1) else (longest, 0)) (0, 0)).1

/-- Whether a character can only be written as an escape: a control character other than tab and line feed. -/
def needsEscape (c : Char) : Bool := (c.toNat < 32 && c != '\t' && c != '\n') || c.toNat == 127

/-- The upper case hexadecimal digit of a number below sixteen. -/
def upperHexDigit (n : Nat) : Char := if n < 10 then Char.ofNat (48 + n) else Char.ofNat (55 + n)

/-- A character between quotes; over several lines a line feed stands for itself. -/
def escapeBasic (lines : Bool) (c : Char) : List Char :=
  match c with
  | '\x08' => ['\\', 'b']
  | '\t' => ['\\', 't']
  | '\n' => if lines then ['\n'] else ['\\', 'n']
  | '\x0c' => ['\\', 'f']
  | '\r' => ['\\', 'r']
  | '\\' => ['\\', '\\']
  | c =>
    if needsEscape c then
      ['\\', 'u', '0', '0', upperHexDigit (c.toNat / 16), upperHexDigit (c.toNat % 16)]
    else [c]

/-- The text between quotes.  `quotes` have come one after the other just before; more of them than `allowed` are
escaped. -/
def basicBody (lines : Bool) (allowed quotes : Nat) : List Char → List Char
  | [] => []
  | '"' :: rest =>
    if quotes < allowed then '"' :: basicBody lines allowed (quotes + 1) rest
    else '\\' :: '"' :: basicBody lines allowed 0 rest
  | c :: rest => escapeBasic lines c ++ basicBody lines allowed 0 rest

/-- A string as it is written to a document. -/
def quote (s : String) : String :=
  let cs := s.toList
  let escapes := cs.any needsEscape
  let backslash := cs.contains '\\'
  let newline := cs.contains '\n'
  let quotes := longestRun '"' cs
  let apostrophes := longestRun '\'' cs
  let lead := if newline then "\n" else ""
  let basic := "\"" ++ String.ofList (basicBody false 0 0 cs) ++ "\""
  let basicLines := "\"\"\"" ++ lead ++ String.ofList (basicBody true 2 0 cs) ++ "\"\"\""
  if !escapes && !backslash && quotes = 0 && !newline then basic
  else if !escapes && apostrophes = 0 && !newline then "'" ++ s ++ "'"
  else if !escapes && !backslash && quotes ≤ 2 then basicLines
  else if !escapes && apostrophes ≤ 2 then "'''" ++ lead ++ s ++ "'''"
  else if newline then basicLines
  else basic

end Typeahead.Data.Toml
