import Typeahead.Grammar.Spelling

/-!
# Grammars

A built grammar is a network of lexical rules over characters, a network of phrase rules over token kinds, the
table of tokens and the start rule.
-/

namespace Typeahead

/-- The phrase network of a grammar. -/
abbrev PhraseNetwork := Network TokenKind (List TokenKind)

/-- A token of a grammar. -/
structure TokenDef where
  /-- The position of the token in the table. -/
  kind : TokenKind
  name : String
  /-- The rule of the token in the lexical network. -/
  rule : RuleId
  /-- Whether the token is read and then dropped. -/
  skip : Bool
  /-- All spellings of a literal token; none if the token is patterned. -/
  spellings : List String
  deriving Repr, DecidableEq

/-- Whether a token has a closed set of spellings. -/
def TokenDef.isLiteral (t : TokenDef) : Bool := !t.spellings.isEmpty

/-- A built grammar. -/
structure Grammar where
  lexical : LexicalNetwork
  phrase : PhraseNetwork
  /-- The tokens in the order of their declaration, which is also that of their priority. -/
  tokens : Array TokenDef
  startRule : RuleId
  deriving Repr

namespace Grammar

/-- The token of a kind. -/
def token? (g : Grammar) (kind : TokenKind) : Option TokenDef := g.tokens[kind]?

/-- The name of a phrase rule. -/
def ruleName? (g : Grammar) (rule : RuleId) : Option String := g.phrase.rules[rule]?.map (·.name)

/-- The kind of the token with the given name. -/
def kindNamed? (g : Grammar) (name : String) : Option TokenKind := (g.tokens.find? (·.name = name)).map (·.kind)

/-- The kind of the token that a lexical rule belongs to; fragments belong to none. -/
def kindOfRule? (g : Grammar) (rule : RuleId) : Option TokenKind := (g.tokens.find? (·.rule = rule)).map (·.kind)

/-- The name of a token kind, for messages. -/
def displayName (g : Grammar) (kind : TokenKind) : String :=
  match g.token? kind with
  | some t => t.name
  | none => "<unknown>"

/-- The spellings of a token kind; none for a patterned or unknown one. -/
def spellings (g : Grammar) (kind : TokenKind) : List String :=
  match g.token? kind with
  | some t => t.spellings
  | none => []

end Grammar

end Typeahead
