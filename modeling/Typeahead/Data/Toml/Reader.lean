import Typeahead.Data.Toml.Document
import Typeahead.Data.Toml.Scalar

/-!
# Reading TOML

Reads the text of a TOML document, version 1.1, into a value.  Each function takes the characters that are left
and returns what it read together with the rest, or nothing when the text is malformed.
-/

namespace Typeahead.Data.Toml

/-! ### Blanks, comments and line ends -/

/-- Whether a character separates words on a line. -/
def isBlank (c : Char) : Bool := c == ' ' || c == '\t'

/-- Whether a character may stand in a comment or a string. -/
def isPlain (c : Char) : Bool := c == '\t' || (32 ≤ c.toNat && c.toNat != 127)

/-- Skips blanks. -/
def skipBlanks (cs : List Char) : List Char := cs.dropWhile isBlank

/-- Skips to the next line; before its end only blanks and a comment may stand. -/
def nextLine? (inComment : Bool) : List Char → Option (List Char)
  | [] => some []
  | '\n' :: rest => some rest
  | '\r' :: '\n' :: rest => some rest
  | c :: rest =>
    if inComment then if isPlain c then nextLine? true rest else none
    else if isBlank c then nextLine? false rest
    else if c == '#' then nextLine? true rest
    else none

/-- Skips blanks, comments and line ends. -/
def skipSpace? (inComment : Bool) : List Char → Option (List Char)
  | [] => some []
  | '\n' :: rest => skipSpace? false rest
  | '\r' :: '\n' :: rest => skipSpace? false rest
  | c :: rest =>
    if inComment then if isPlain c then skipSpace? true rest else none
    else if isBlank c then skipSpace? false rest
    else if c == '#' then skipSpace? true rest
    else some (c :: rest)

/-! ### Strings -/

/-- The character with a code point written in hexadecimal digits. -/
def codePoint? (digits : List Char) : Option Char := do
  let n ← (digits.mapM (digit? 16)).map (·.foldl (fun n d => 16 * n + d) 0)
  if n.isValidChar then some (Char.ofNat n) else none

/-- The character that an escape of one letter stands for. -/
def escaped? : Char → Option Char
  | 'b' => some '\x08'
  | 't' => some '\t'
  | 'n' => some '\n'
  | 'f' => some '\x0c'
  | 'e' => some '\x1b'
  | 'r' => some '\r'
  | '"' => some '"'
  | '\\' => some '\\'
  | _ => none

/-- Puts a character in front of a string that was read. -/
def consTo (c : Char) : List Char × List Char → List Char × List Char
  | (s, rest) => (c :: s, rest)

/-- Reads a string up to its closing quote. -/
def basicString? : List Char → Option (List Char × List Char)
  | [] => none
  | '"' :: rest => some ([], rest)
  | '\\' :: 'x' :: a :: b :: rest => do
    let x ← codePoint? [a, b]
    (basicString? rest).map (consTo x)
  | '\\' :: 'u' :: a :: b :: c :: d :: rest => do
    let x ← codePoint? [a, b, c, d]
    (basicString? rest).map (consTo x)
  | '\\' :: 'U' :: a :: b :: c :: d :: e :: f :: g :: h :: rest => do
    let x ← codePoint? [a, b, c, d, e, f, g, h]
    (basicString? rest).map (consTo x)
  | '\\' :: c :: rest => do
    let x ← escaped? c
    (basicString? rest).map (consTo x)
  | c :: rest => if isPlain c && c != '\\' then (basicString? rest).map (consTo c) else none

/-- Reads a string without escapes up to its closing apostrophe. -/
def literalString? : List Char → Option (List Char × List Char)
  | [] => none
  | '\'' :: rest => some ([], rest)
  | c :: rest => if isPlain c then (literalString? rest).map (consTo c) else none

/-- The quotes that belong to a string of several lines although they stand right before its end, of which three
have been read. -/
def closingQuotes (quote : Char) : List Char → List Char × List Char
  | a :: b :: rest =>
    if a = quote then if b = quote then ([a, b], rest) else ([a], b :: rest) else ([], a :: b :: rest)
  | [a] => if a = quote then ([a], []) else ([], [a])
  | [] => ([], [])

/-- Whether a line ends after blanks. -/
def endsLine (cs : List Char) : Bool :=
  match skipBlanks cs with
  | '\n' :: _ => true
  | '\r' :: '\n' :: _ => true
  | _ => false

/-- Reads a string of several lines.  A backslash at the end of a line makes blanks and line ends disappear up to
the next other character; `skipping` tells that they are disappearing. -/
def basicLines? (skipping : Bool) : List Char → Option (List Char × List Char)
  | [] => none
  | '"' :: '"' :: '"' :: rest => some (closingQuotes '"' rest)
  | '\n' :: rest =>
    if skipping then basicLines? true rest else (basicLines? false rest).map (consTo '\n')
  | '\r' :: '\n' :: rest =>
    if skipping then basicLines? true rest else (basicLines? false rest).map (consTo '\n')
  | '\\' :: 'x' :: a :: b :: rest => do
    let x ← codePoint? [a, b]
    (basicLines? false rest).map (consTo x)
  | '\\' :: 'u' :: a :: b :: c :: d :: rest => do
    let x ← codePoint? [a, b, c, d]
    (basicLines? false rest).map (consTo x)
  | '\\' :: 'U' :: a :: b :: c :: d :: e :: f :: g :: h :: rest => do
    let x ← codePoint? [a, b, c, d, e, f, g, h]
    (basicLines? false rest).map (consTo x)
  | '\\' :: c :: rest =>
    if endsLine (c :: rest) then
      if c == '\r' then basicLines? true (c :: rest) else basicLines? true rest
    else do
      let x ← escaped? c
      (basicLines? false rest).map (consTo x)
  | c :: rest =>
    if skipping && isBlank c then basicLines? true rest
    else if isPlain c && c != '\\' then (basicLines? false rest).map (consTo c)
    else none

/-- Reads a string of several lines without escapes. -/
def literalLines? : List Char → Option (List Char × List Char)
  | [] => none
  | '\'' :: '\'' :: '\'' :: rest => some (closingQuotes '\'' rest)
  | '\n' :: rest => (literalLines? rest).map (consTo '\n')
  | '\r' :: '\n' :: rest => (literalLines? rest).map (consTo '\n')
  | c :: rest => if isPlain c then (literalLines? rest).map (consTo c) else none

/-- Drops a line end at the beginning of a string of several lines. -/
def dropLineEnd : List Char → List Char
  | '\n' :: rest => rest
  | '\r' :: '\n' :: rest => rest
  | cs => cs

/-- Reads a quoted string of any form. -/
def quoted? (cs : List Char) : Option (String × List Char) :=
  let toText (read : Option (List Char × List Char)) : Option (String × List Char) :=
    read.map fun (s, rest) => (String.ofList s, rest)
  match cs with
  | '"' :: '"' :: '"' :: rest => toText (basicLines? false (dropLineEnd rest))
  | '"' :: rest => toText (basicString? rest)
  | '\'' :: '\'' :: '\'' :: rest => toText (literalLines? (dropLineEnd rest))
  | '\'' :: rest => toText (literalString? rest)
  | _ => none

/-! ### Keys -/

/-- Whether a character may stand in an unquoted key. -/
def isKeyChar (c : Char) : Bool := c.isAlphanum || c == '_' || c == '-'

/-- Reads one part of a key. -/
def keyPart? (cs : List Char) : Option (String × List Char) :=
  match cs with
  | '"' :: rest => (basicString? rest).map fun (s, rest) => (String.ofList s, rest)
  | '\'' :: rest => (literalString? rest).map fun (s, rest) => (String.ofList s, rest)
  | cs =>
    match cs.takeWhile isKeyChar with
    | [] => none
    | word => some (String.ofList word, cs.dropWhile isKeyChar)

/-- How many parts a dotted key may have. -/
def maxKeyParts : Nat := 80

/-- Reads a dotted key with at most `parts` parts, and the blanks after it. -/
def key? : Nat → List Char → Option (List String × List Char)
  | 0, _ => none
  | parts + 1, cs => do
    let (name, rest) ← keyPart? cs
    match skipBlanks rest with
    | '.' :: rest =>
      let (path, rest) ← key? parts (skipBlanks rest)
      pure (name :: path, rest)
    | rest => pure ([name], rest)

/-! ### Values -/

/-- How deep arrays and inline tables may be nested. -/
def maxDepth : Nat := 80

/-- Whether a character may stand in an unquoted scalar. -/
def isScalarChar (c : Char) : Bool := c.isAlphanum || c == '_' || c == '-' || c == '+' || c == '.' || c == ':'

/-- Splits off an unquoted scalar.  A date and a time may be separated by a blank. -/
def scalarWord (cs : List Char) : List Char × List Char :=
  let word := cs.takeWhile isScalarChar
  match date? word, cs.dropWhile isScalarChar with
  | some [], ' ' :: c :: rest =>
    if c.isDigit then
      (word ++ ' ' :: (c :: rest).takeWhile isScalarChar, (c :: rest).dropWhile isScalarChar)
    else (word, ' ' :: c :: rest)
  | _, rest => (word, rest)

mutual

/-- Reads a value.  Each of these functions hands one unit less of fuel on. -/
def value? : Nat → Nat → List Char → Option (Value × List Char)
  | 0, _, _ => none
  | fuel + 1, depth, cs =>
    match cs with
    | '"' :: _ | '\'' :: _ => (quoted? cs).map fun (s, rest) => (.string s, rest)
    | '[' :: rest =>
      if maxDepth ≤ depth then none
      else (items? fuel (depth + 1) rest).map fun (items, rest) => (.array items, rest)
    | '\x7b' :: rest =>
      if maxDepth ≤ depth then none
      else do
        let (entries, rest) ← inlineEntries? fuel (depth + 1) rest
        let v ← inlineTable? entries
        pure (v, rest)
    | cs =>
      let (word, rest) := scalarWord cs
      (scalar? word).map fun v => (v, rest)

/-- Reads the items of an array up to its closing bracket. -/
def items? : Nat → Nat → List Char → Option (List Value × List Char)
  | 0, _, _ => none
  | fuel + 1, depth, cs => do
    match ← skipSpace? false cs with
    | ']' :: rest => pure ([], rest)
    | cs =>
      let (v, rest) ← value? fuel depth cs
      match ← skipSpace? false rest with
      | ',' :: rest =>
        let (vs, rest) ← items? fuel depth rest
        pure (v :: vs, rest)
      | ']' :: rest => pure ([v], rest)
      | _ => none

/-- Reads the entries of an inline table up to its closing brace. -/
def inlineEntries? : Nat → Nat → List Char → Option (List (List String × Value) × List Char)
  | 0, _, _ => none
  | fuel + 1, depth, cs => do
    match ← skipSpace? false cs with
    | '\x7d' :: rest => pure ([], rest)
    | cs =>
      let (path, rest) ← key? maxKeyParts cs
      match rest with
      | '=' :: rest =>
        let (v, rest) ← value? fuel depth (skipBlanks rest)
        match ← skipSpace? false rest with
        | ',' :: rest =>
          let (entries, rest) ← inlineEntries? fuel depth rest
          pure ((path, v) :: entries, rest)
        | '\x7d' :: rest => pure ([(path, v)], rest)
        | _ => none
      | _ => none

end

/-! ### Documents -/

/-- Reads one statement, which begins at a character other than a blank; returns the characters of the lines
below. -/
def statement? (cs : List Char) : Option (Statement × List Char) :=
  match cs with
  | '[' :: '[' :: rest => do
    let (path, rest) ← key? maxKeyParts (skipBlanks rest)
    match rest with
    | ']' :: ']' :: rest => (nextLine? false rest).map fun rest => (.tables path, rest)
    | _ => none
  | '[' :: rest => do
    let (path, rest) ← key? maxKeyParts (skipBlanks rest)
    match rest with
    | ']' :: rest => (nextLine? false rest).map fun rest => (.table path, rest)
    | _ => none
  | cs => do
    let (path, rest) ← key? maxKeyParts cs
    match rest with
    | '=' :: rest =>
      let (v, rest) ← value? (2 * rest.length + 2) 0 (skipBlanks rest)
      (nextLine? false rest).map fun rest => (.entry path v, rest)
    | _ => none

/-- Reads at most `lines` statements up to the end of the text. -/
def statements? : Nat → List Char → Option (List Statement)
  | 0, _ => none
  | lines + 1, cs => do
    match ← skipSpace? false cs with
    | [] => pure []
    | cs =>
      let (statement, rest) ← statement? cs
      let following ← statements? lines rest
      pure (statement :: following)

/-- Reads a document.  A byte order mark may stand in front. -/
def read? (text : String) : Option Value :=
  let cs := match text.toList with
    | '\ufeff' :: rest => rest
    | cs => cs
  (statements? (cs.length + 1) cs).bind assemble?

end Typeahead.Data.Toml
