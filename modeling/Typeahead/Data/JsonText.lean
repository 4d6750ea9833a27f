import Typeahead.Data.Value

/-!
# JSON text

Writes values as JSON, either on one line (`compact`) or over several lines with two blanks for each level
(`pretty`).  Characters beyond ASCII stand for themselves; control characters are escaped.
-/

namespace Typeahead.Data.JsonText

/-- The hexadecimal digit of a number below sixteen. -/
def hexDigit (n : Nat) : Char := if n < 10 then Char.ofNat (48 + n) else Char.ofNat (87 + n)

/-- A character inside a quoted string. -/
def escapeChar (c : Char) : List Char :=
  match c with
  | '"' => ['\\', '"']
  | '\\' => ['\\', '\\']
  | '\n' => ['\\', 'n']
  | '\r' => ['\\', 'r']
  | '\t' => ['\\', 't']
  | '\x08' => ['\\', 'b']
  | '\x0c' => ['\\', 'f']
  | c =>
    if c.toNat < 32 then ['\\', 'u', '0', '0', hexDigit (c.toNat / 16), hexDigit (c.toNat % 16)] else [c]

/-- A quoted string. -/
def quote (s : String) : String := "\"" ++ String.ofList (s.toList.flatMap escapeChar) ++ "\""

/-- A value that is neither an array nor a table. -/
def scalar : Value → String
  | .bool b => if b then "true" else "false"
  | .int i => toString i
  | .real text _ => text
  | .datetime text => quote text
  | .string s => quote s
  | _ => "null"

mutual

/-- A value on one line. -/
def compact : Value → String
  | .array items => "[" ++ ",".intercalate (compactItems items) ++ "]"
  | .table entries => "\x7b" ++ ",".intercalate (compactEntries entries) ++ "\x7d"
  | v => scalar v

/-- The items of an array, each on one line. -/
def compactItems : List Value → List String
  | [] => []
  | v :: vs => compact v :: compactItems vs

/-- The entries of a table, each on one line. -/
def compactEntries : List (String × Value) → List String
  | [] => []
  | (key, v) :: rest => (quote key ++ ":" ++ compact v) :: compactEntries rest

end

/-- Some parts between two brackets, one on each line; `indent` stands before the closing bracket. -/
def block (indent opening closing : String) (parts : List String) : String :=
  if parts.isEmpty then opening ++ closing
  else
    let lines := parts.map fun part => indent ++ "  " ++ part
    opening ++ "\n" ++ ",\n".intercalate lines ++ "\n" ++ indent ++ closing

mutual

/-- A value over several lines; `indent` stands before each line but the first. -/
def prettyFrom (indent : String) : Value → String
  | .array items => block indent "[" "]" (prettyItems (indent ++ "  ") items)
  | .table entries => block indent "\x7b" "\x7d" (prettyEntries (indent ++ "  ") entries)
  | v => scalar v

/-- The items of an array over several lines. -/
def prettyItems (indent : String) : List Value → List String
  | [] => []
  | v :: vs => prettyFrom indent v :: prettyItems indent vs

/-- The entries of a table over several lines. -/
def prettyEntries (indent : String) : List (String × Value) → List String
  | [] => []
  | (key, v) :: rest => (quote key ++ ": " ++ prettyFrom indent v) :: prettyEntries indent rest

end

/-- A value over several lines. -/
def pretty (v : Value) : String := prettyFrom "" v

end Typeahead.Data.JsonText
