import Typeahead.Grammar.Assembly
import Typeahead.Grammar.Basic
import Typeahead.Network.Closure

/-!
# Declarations

A grammar is declared as lists of tokens, fragments and phrase rules and the name of a start rule.
`Declarations.build` checks the declarations and lays out both networks, or reports the first thing that is
wrong (`GrammarError`).
-/

namespace Typeahead

/-- What can be wrong with the declarations of a grammar. -/
inductive GrammarError where
  | duplicateToken (name : String)
  /-- Two fragments, or a fragment and a token, share a name. -/
  | duplicateFragment (name : String)
  | duplicateRule (name : String)
  | undefinedToken (rule token : String)
  | undefinedRule (rule reference : String)
  | undefinedFragment (token fragment : String)
  | missingStartRule
  | unknownStartRule (name : String)
  /-- A token matches the empty text. -/
  | emptyToken (name : String)
  | invalidClass (body : String) (cause : Text.ClassError)
  deriving Repr, DecidableEq

/-- The wording of a grammar error. -/
def GrammarError.message : GrammarError → String
  | duplicateToken name => s!"Duplicate token: {name}"
  | duplicateFragment name => s!"Duplicate fragment: {name}"
  | duplicateRule name => s!"Duplicate rule: {name}"
  | undefinedToken rule token => s!"Rule '{rule}' references undefined token '{token}'"
  | undefinedRule rule reference => s!"Rule '{rule}' references undefined rule '{reference}'"
  | undefinedFragment token fragment => s!"Token '{token}' references undefined fragment '{fragment}'"
  | missingStartRule => "No start rule designated"
  | unknownStartRule name => s!"Unknown start rule: {name}"
  | emptyToken name => s!"Token '{name}' matches the empty string"
  | invalidClass body cause => s!"Invalid character class '{body}': {cause.message}"

/-- A declared token. -/
structure TokenDecl where
  name : String
  body : LexPattern
  skip : Bool
  deriving Repr

/-- The declarations of a grammar, in the order they were made. -/
structure Declarations where
  tokens : List TokenDecl := []
  fragments : List (String × LexPattern) := []
  rules : List (String × PhrasePattern) := []
  start : Option String := none
  deriving Repr

namespace Declarations

/-! ### Declaring -/

/-- Declares a token.  Of two tokens that match the same text the one declared first wins. -/
def token (d : Declarations) (name : String) (body : LexPattern) : Declarations :=
  { d with tokens := d.tokens ++ [⟨name, body, false⟩] }

/-- Declares a token that is read and then dropped. -/
def skip (d : Declarations) (name : String) (body : LexPattern) : Declarations :=
  { d with tokens := d.tokens ++ [⟨name, body, true⟩] }

/-- Declares a keyword, matched in any letter case. -/
def keyword (d : Declarations) (name spelling : String) : Declarations := d.token name (.caseless spelling)

/-- Declares a token with a closed set of exact spellings. -/
def literals (d : Declarations) (name : String) (spellings : List String) : Declarations :=
  d.token name (.literals spellings)

/-- Declares a lexical fragment, which tokens can refer to but which is no token itself. -/
def fragment (d : Declarations) (name : String) (body : LexPattern) : Declarations :=
  { d with fragments := d.fragments ++ [(name, body)] }

/-- Declares a phrase rule. -/
def rule (d : Declarations) (name : String) (body : PhrasePattern) : Declarations :=
  { d with rules := d.rules ++ [(name, body)] }

/-- Designates the start rule; the last designation counts. -/
def startAt (d : Declarations) (name : String) : Declarations := { d with start := some name }

/-! ### Checking names -/

/-- Checks that no name stands in `taken` or twice in the list. -/
def checkDistinct (error : String → GrammarError) : List String → List String → Except GrammarError Unit
  | _, [] => .ok ()
  | taken, name :: names =>
    if name ∈ taken then .error (error name) else checkDistinct error (name :: taken) names

/-- The number of a name in a list of distinct names, or an error. -/
def number (names : List String) (error : GrammarError) (name : String) : Except GrammarError Nat :=
  match names.idxOf? name with
  | some i => .ok i
  | none => .error error

/-- The network with one rule for each name and no bodies yet. -/
def declareRules {σ τ : Type} (names : List String) : Network σ τ :=
  names.foldl (fun net name => (net.addRule name).2) .empty

/-! ### Lexical rules -/

/-- The names of the lexical rules: tokens first, then fragments. -/
def lexicalNames (d : Declarations) : List String := d.tokens.map (·.name) ++ d.fragments.map (·.1)

/-- The bodies of the lexical rules, in the order of their names. -/
def lexicalBodies (d : Declarations) : List (String × LexPattern) :=
  d.tokens.map (fun t => (t.name, t.body)) ++ d.fragments

/-- The ranges of a class body. -/
def readClass (body : String) : Except GrammarError (List Text.CharRange) :=
  match Text.classRanges body with
  | .ok rs => .ok rs
  | .error cause => .error (.invalidClass body cause)

/-- The label of a lexical atom. -/
def lexicalLabel : LexAtom → Except GrammarError (Label Char Text.CharSet)
  | .char c => .ok (.symbol c)
  | .set s => .ok (.oneOf s)
  | .inClass body => (readClass body).map fun rs => .oneOf (.ranges rs)
  | .notInClass body => (readClass body).map fun rs => .oneOf (.outside rs)

/-- Resolves the body of the lexical rule `owner` among the rules named `names`. -/
def resolveLexical (names : List String) (owner : String) (body : LexPattern) :
    Except GrammarError (ResolvedPattern Char Text.CharSet) :=
  body.resolve lexicalLabel fun name => number names (.undefinedFragment owner name) name

/-- Resolves bodies from the first to the last. -/
def resolveBodies {α σ τ : Type} (resolve : String → Pattern α String → Except GrammarError (ResolvedPattern σ τ)) :
    List (String × Pattern α String) → Except GrammarError (List (ResolvedPattern σ τ))
  | [] => .ok []
  | (name, body) :: rest => do
    let p ← resolve name body
    let ps ← resolveBodies resolve rest
    pure (p :: ps)

/-- Lays out the bodies of the rules 0, 1, 2, … one after the other. -/
def layOutBodies {σ τ : Type} (net : Network σ τ) (bodies : List (ResolvedPattern σ τ)) : Network σ τ :=
  bodies.zipIdx.foldl (fun net (body, rule) => net.layOutRule rule body) net

/-- The network of the lexical rules. -/
def buildLexical (d : Declarations) : Except GrammarError LexicalNetwork := do
  checkDistinct .duplicateToken [] (d.tokens.map (·.name))
  checkDistinct .duplicateFragment (d.tokens.map (·.name)) (d.fragments.map (·.1))
  let bodies ← resolveBodies (resolveLexical d.lexicalNames) d.lexicalBodies
  pure (layOutBodies (declareRules d.lexicalNames) bodies)

/-! ### Phrase rules -/

/-- Resolves the body of the phrase rule `owner`: left recursion becomes a loop, names become numbers, and
alternations of single tokens are merged. -/
def resolvePhrase (tokens rules : List String) (owner : String) (body : PhrasePattern) :
    Except GrammarError (ResolvedPattern TokenKind (List TokenKind)) := do
  let body := (body.withoutLeftRecursion? owner).getD body
  let resolved ← body.resolve
    (fun name => (number tokens (.undefinedToken owner name) name).map .symbol)
    (fun name => number rules (.undefinedRule owner name) name)
  pure resolved.mergeSymbols

/-- The network of the phrase rules. -/
def buildPhrase (d : Declarations) : Except GrammarError PhraseNetwork := do
  let names := d.rules.map (·.1)
  checkDistinct .duplicateRule [] names
  let bodies ← resolveBodies (resolvePhrase (d.tokens.map (·.name)) names) d.rules
  pure (layOutBodies (declareRules names) bodies)

/-! ### The grammar -/

/-- Whether a lexical rule matches the empty text. -/
def matchesEmpty (net : LexicalNetwork) (rule : RuleId) : Bool :=
  (net.closure {} ((net.start? rule).toList.map .initial)).acceptsEnd

/-- The table of numbered tokens; each must match more than the empty text.  The lexical rules begin with those of the
tokens, so the kind of a token is also its rule. -/
def tokenTable (net : LexicalNetwork) : List (TokenDecl × TokenKind) → Except GrammarError (List TokenDef)
  | [] => .ok []
  | (t, kind) :: rest =>
    if matchesEmpty net kind then .error (.emptyToken t.name)
    else (tokenTable net rest).map (⟨kind, t.name, kind, t.skip, (net.spellings? kind).getD []⟩ :: ·)

/-- Builds the grammar, or reports the first fault: a missing start rule, faults of the lexical rules, faults of
the phrase rules, an unknown start rule, and last a token that matches the empty text. -/
def build (d : Declarations) : Except GrammarError Grammar := do
  match d.start with
  | none => .error .missingStartRule
  | some start =>
    let lexical ← d.buildLexical
    let phrase ← d.buildPhrase
    let startRule ← number (d.rules.map (·.1)) (.unknownStartRule start) start
    let tokens ← tokenTable lexical d.tokens.zipIdx
    pure ⟨lexical, phrase, tokens.toArray, startRule⟩

end Declarations

end Typeahead
