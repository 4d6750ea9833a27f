import Typeahead.Data.Toml.Reader
import Typeahead.Grammar.Declarations

/-!
# Grammar definitions

The form in which a grammar is written down in a file.  A definition is read from a value (`ofValue?`), written
to one (`toValue`) and turned into declarations (`declarations`).
-/

namespace Typeahead

open Data

/-- A lexical pattern as it is written in a definition. -/
inductive LexicalForm where
  | literal (text : String)
  | caseless (text : String)
  | inClass (body : String)
  | notInClass (body : String)
  | fragment (name : String)
  | seq (items : List LexicalForm)
  | alt (items : List LexicalForm)
  | optional (body : LexicalForm)
  | many (body : LexicalForm)
  | many1 (body : LexicalForm)
  deriving Repr

/-- The body of a phrase rule as it is written in a definition. -/
inductive PhraseForm where
  | token (name : String)
  | rule (name : String)
  | seq (items : List PhraseForm)
  | alt (items : List PhraseForm)
  | optional (body : PhraseForm)
  | many (body : PhraseForm)
  | many1 (body : PhraseForm)
  | empty
  deriving Repr

/-- How a token is spelled. -/
inductive TokenForm where
  /-- A keyword in any letter case. -/
  | keyword (spelling : String)
  /-- A closed set of exact spellings. -/
  | literals (spellings : List String)
  | pattern (p : LexicalForm)
  deriving Repr

/-- A token of a definition. -/
structure TokenDefinition where
  name : String
  skip : Bool
  form : TokenForm
  deriving Repr

/-- A lexical fragment of a definition. -/
structure FragmentDefinition where
  name : String
  pattern : LexicalForm
  deriving Repr

/-- A phrase rule of a definition. -/
structure RuleDefinition where
  name : String
  body : PhraseForm
  deriving Repr

/-- A grammar as it is written down. -/
structure GrammarDefinition where
  start : String
  tokens : List TokenDefinition
  fragments : List FragmentDefinition
  rules : List RuleDefinition
  deriving Repr

/-! ### Writing -/

mutual

/-- A pattern is a table with one entry, whose key tells the kind of pattern. -/
def LexicalForm.toValue : LexicalForm → Value
  | .literal text => .table [("literal", .string text)]
  | .caseless text => .table [("caseless", .string text)]
  | .inClass body => .table [("class", .string body)]
  | .notInClass body => .table [("not_class", .string body)]
  | .fragment name => .table [("fragment", .string name)]
  | .seq items => .table [("seq", .array (LexicalForm.toValues items))]
  | .alt items => .table [("alt", .array (LexicalForm.toValues items))]
  | .optional body => .table [("optional", LexicalForm.toValue body)]
  | .many body => .table [("many", LexicalForm.toValue body)]
  | .many1 body => .table [("many1", LexicalForm.toValue body)]

/-- The values of a list of patterns. -/
def LexicalForm.toValues : List LexicalForm → List Value
  | [] => []
  | p :: ps => LexicalForm.toValue p :: LexicalForm.toValues ps

end

mutual

/-- A rule body is a table with one entry, or the string `empty`. -/
def PhraseForm.toValue : PhraseForm → Value
  | .token name => .table [("token", .string name)]
  | .rule name => .table [("rule", .string name)]
  | .seq items => .table [("seq", .array (PhraseForm.toValues items))]
  | .alt items => .table [("alt", .array (PhraseForm.toValues items))]
  | .optional body => .table [("optional", PhraseForm.toValue body)]
  | .many body => .table [("many", PhraseForm.toValue body)]
  | .many1 body => .table [("many1", PhraseForm.toValue body)]
  | .empty => .string "empty"

/-- The values of a list of rule bodies. -/
def PhraseForm.toValues : List PhraseForm → List Value
  | [] => []
  | p :: ps => PhraseForm.toValue p :: PhraseForm.toValues ps

end

/-- The entry of a token that tells how it is spelled. -/
def TokenForm.toEntry : TokenForm → String × Value
  | .keyword spelling => ("keyword", .string spelling)
  | .literals spellings => ("literals", .array (spellings.map .string))
  | .pattern p => ("pattern", p.toValue)

/-- The value of a token. -/
def TokenDefinition.toValue (t : TokenDefinition) : Value :=
  .table [("name", .string t.name), ("skip", .bool t.skip), t.form.toEntry]

/-- The value of a fragment. -/
def FragmentDefinition.toValue (f : FragmentDefinition) : Value :=
  .table [("name", .string f.name), ("pattern", f.pattern.toValue)]

/-- The value of a rule. -/
def RuleDefinition.toValue (r : RuleDefinition) : Value :=
  .table [("name", .string r.name), ("body", r.body.toValue)]

/-- The value of a definition. -/
def GrammarDefinition.toValue (d : GrammarDefinition) : Value :=
  .table
    [("start", .string d.start),
     ("tokens", .array (d.tokens.map (·.toValue))),
     ("fragments", .array (d.fragments.map (·.toValue))),
     ("rules", .array (d.rules.map (·.toValue)))]

/-! ### Reading -/

mutual

/-- Reads a lexical pattern. -/
def LexicalForm.ofValue? : Value → Option LexicalForm
  | .table [(kind, content)] =>
    match kind with
    | "literal" => content.string?.map .literal
    | "caseless" => content.string?.map .caseless
    | "class" => content.string?.map .inClass
    | "not_class" => content.string?.map .notInClass
    | "fragment" => content.string?.map .fragment
    | "seq" => (LexicalForm.ofItems? content).map .seq
    | "alt" => (LexicalForm.ofItems? content).map .alt
    | "optional" => (LexicalForm.ofValue? content).map .optional
    | "many" => (LexicalForm.ofValue? content).map .many
    | "many1" => (LexicalForm.ofValue? content).map .many1
    | _ => none
  | _ => none
termination_by v => (sizeOf v, 0)

/-- Reads an array of lexical patterns. -/
def LexicalForm.ofItems? : Value → Option (List LexicalForm)
  | .array items => LexicalForm.ofValues? items
  | _ => none
termination_by v => (sizeOf v, 1)

/-- Reads each of a list of lexical patterns. -/
def LexicalForm.ofValues? : List Value → Option (List LexicalForm)
  | [] => some []
  | v :: vs => do
    let p ← LexicalForm.ofValue? v
    let ps ← LexicalForm.ofValues? vs
    pure (p :: ps)
termination_by vs => (sizeOf vs, 0)

end

mutual

/-- Reads a rule body. -/
def PhraseForm.ofValue? (format : Format) : Value → Option PhraseForm
  | .string "empty" => some .empty
  | .table [(kind, content)] =>
    match kind with
    | "token" => content.string?.map .token
    | "rule" => content.string?.map .rule
    | "seq" => (PhraseForm.ofItems? format content).map .seq
    | "alt" => (PhraseForm.ofItems? format content).map .alt
    | "optional" => (PhraseForm.ofValue? format content).map .optional
    | "many" => (PhraseForm.ofValue? format content).map .many
    | "many1" => (PhraseForm.ofValue? format content).map .many1
    | "empty" => if format.isUnit content then some .empty else none
    | _ => none
  | _ => none
termination_by v => (sizeOf v, 0)

/-- Reads an array of rule bodies. -/
def PhraseForm.ofItems? (format : Format) : Value → Option (List PhraseForm)
  | .array items => PhraseForm.ofValues? format items
  | _ => none
termination_by v => (sizeOf v, 1)

/-- Reads each of a list of rule bodies. -/
def PhraseForm.ofValues? (format : Format) : List Value → Option (List PhraseForm)
  | [] => some []
  | v :: vs => do
    let p ← PhraseForm.ofValue? format v
    let ps ← PhraseForm.ofValues? format vs
    pure (p :: ps)
termination_by vs => (sizeOf vs, 0)

end

/-- Reads how a token is spelled.  Of several entries that tell it, the first in alphabetical order counts. -/
def TokenForm.ofEntries? (entries : List (String × Value)) : Option TokenForm :=
  match entries.lookup "keyword" with
  | some v => v.string?.map .keyword
  | none =>
    match entries.lookup "literals" with
    | some v => v.strings?.map .literals
    | none => (entries.lookup "pattern").bind fun v => (LexicalForm.ofValue? v).map .pattern

/-- Reads a token.  Unlike other records it cannot be written as a list, and all but its name and `skip` is set aside
before its spelling is looked for. -/
def TokenDefinition.ofValue? (format : Format) : Value → Option TokenDefinition
  | .table entries => do
    guard (entries.all fun (key, v) => key = "name" || key = "skip" || format.canKeep v)
    let name ← Value.required entries "name" Value.string?
    let skip ← Value.optional entries "skip" false Value.bool?
    let form ← TokenForm.ofEntries? entries
    pure ⟨name, skip, form⟩
  | _ => none

/-- Reads a fragment. -/
def FragmentDefinition.ofValue? (format : Format) (v : Value) : Option FragmentDefinition := do
  let entries ← v.record? format ["name", "pattern"]
  let name ← Value.required entries "name" Value.string?
  let pattern ← Value.required entries "pattern" LexicalForm.ofValue?
  pure ⟨name, pattern⟩

/-- Reads a rule. -/
def RuleDefinition.ofValue? (format : Format) (v : Value) : Option RuleDefinition := do
  let entries ← v.record? format ["name", "body"]
  let name ← Value.required entries "name" Value.string?
  let body ← Value.required entries "body" (PhraseForm.ofValue? format)
  pure ⟨name, body⟩

/-- Reads a definition.  Only the start rule must be given, and entries of other names are ignored. -/
def GrammarDefinition.ofValue? (format : Format) (v : Value) : Option GrammarDefinition := do
  let entries ← v.record? format ["start", "tokens", "fragments", "rules"]
  let list {α : Type} (name : String) (read : Value → Option α) : Option (List α) :=
    Value.optional entries name [] fun v => v.items?.bind (·.mapM read)
  let start ← Value.required entries "start" Value.string?
  let tokens ← list "tokens" (TokenDefinition.ofValue? format)
  let fragments ← list "fragments" (FragmentDefinition.ofValue? format)
  let rules ← list "rules" (RuleDefinition.ofValue? format)
  pure ⟨start, tokens, fragments, rules⟩

/-- Reads the text of a definition file. -/
def GrammarDefinition.read? (text : String) : Option GrammarDefinition :=
  (Toml.read? text).bind (ofValue? .toml)

/-! ### Declaring -/

mutual

/-- The pattern that a written pattern stands for. -/
def LexicalForm.toPattern : LexicalForm → LexPattern
  | .literal text => .literal text
  | .caseless text => .caseless text
  | .inClass body => .inClass body
  | .notInClass body => .notInClass body
  | .fragment name => .ref name
  | .seq items => .seq (LexicalForm.toPatterns items)
  | .alt items => .alt (LexicalForm.toPatterns items)
  | .optional body => .optional (LexicalForm.toPattern body)
  | .many body => .many (LexicalForm.toPattern body)
  | .many1 body => .many1 (LexicalForm.toPattern body)

/-- The patterns of a list. -/
def LexicalForm.toPatterns : List LexicalForm → List LexPattern
  | [] => []
  | p :: ps => LexicalForm.toPattern p :: LexicalForm.toPatterns ps

end

mutual

/-- The pattern that a written rule body stands for. -/
def PhraseForm.toPattern : PhraseForm → PhrasePattern
  | .token name => .atom name
  | .rule name => .ref name
  | .seq items => .seq (PhraseForm.toPatterns items)
  | .alt items => .alt (PhraseForm.toPatterns items)
  | .optional body => .optional (PhraseForm.toPattern body)
  | .many body => .many (PhraseForm.toPattern body)
  | .many1 body => .many1 (PhraseForm.toPattern body)
  | .empty => .empty

/-- The patterns of a list. -/
def PhraseForm.toPatterns : List PhraseForm → List PhrasePattern
  | [] => []
  | p :: ps => PhraseForm.toPattern p :: PhraseForm.toPatterns ps

end

/-- The pattern of a token. -/
def TokenForm.toPattern : TokenForm → LexPattern
  | .keyword spelling => .caseless spelling
  | .literals spellings => .literals spellings
  | .pattern p => p.toPattern

/-- The declarations that a definition stands for. -/
def GrammarDefinition.declarations (d : GrammarDefinition) : Declarations :=
  { tokens := d.tokens.map fun t => ⟨t.name, t.form.toPattern, t.skip⟩
    fragments := d.fragments.map fun f => (f.name, f.pattern.toPattern)
    rules := d.rules.map fun r => (r.name, r.body.toPattern)
    start := some d.start }

end Typeahead
