import Typeahead.Completion.Expectation

/-!
# Suggestions

Expected kinds become texts: the spellings of literal tokens, in the preferred letter case, that begin with what
has been typed of the next token.  Patterned tokens give no suggestion.  `Grammar.suggest` is the whole way from
an input to its `Report`.
-/

namespace Typeahead

/-- The letter case of suggested texts. -/
inductive CasePreference where
  | upper
  | lower
  /-- As declared in the grammar. -/
  | asIs
  deriving Repr, DecidableEq, Inhabited

namespace CasePreference

/-- The name under which a preference is configured. -/
def name : CasePreference → String
  | upper => "upper"
  | lower => "lower"
  | asIs => "as-is"

/-- The preference with a name, in any letter case; "as-is" has two more spellings. -/
def ofName? (s : String) : Option CasePreference :=
  match Text.lowercase s with
  | "upper" => some upper
  | "lower" => some lower
  | "as-is" | "asis" | "as_is" => some asIs
  | _ => none

/-- The wording for an unknown name. -/
def invalidName (s : String) : String := s!"Invalid case preference '{s}'. Valid options: upper, lower, as-is"

/-- A text in the preferred case. -/
def apply : CasePreference → String → String
  | upper, s => Text.uppercase s
  | lower, s => Text.lowercase s
  | asIs, s => s

/-- Whether `text` completes `fragment`: it begins with it, up to letter case unless the declared case is kept. -/
def completes : CasePreference → String → String → Bool
  | asIs, text, fragment => fragment.toList.isPrefixOf text.toList
  | _, text, fragment => (Text.lowercase fragment).toList.isPrefixOf (Text.lowercase text).toList

/-- Every preference is found under its own name. -/
theorem ofName?_name (p : CasePreference) : ofName? p.name = some p := by
  cases p <;> decide +kernel

end CasePreference

/-- A suggested text and the kind of token it would be. -/
structure Suggestion where
  text : String
  kind : TokenKind
  deriving Repr, DecidableEq

/-- Drops each suggestion whose text is that of the one before. -/
def dropRepeated : Option String → List Suggestion → List Suggestion
  | _, [] => []
  | last, s :: rest => if last = some s.text then dropRepeated last rest else s :: dropRepeated (some s.text) rest

/-- The settings of a request. -/
structure Options where
  case : CasePreference := .asIs
  limits : Limits := {}
  deriving Repr, DecidableEq

/-- What a request found out about its input. -/
structure Report where
  /-- Ascending by text; no text twice. -/
  suggestions : List Suggestion
  unfinished : Option Unfinished
  /-- How many tokens are confirmed. -/
  confirmed : Nat
  /-- Whether the confirmed tokens are complete. -/
  acceptsEnd : Bool
  stats : Stats
  deriving Repr, DecidableEq

/-- The suggested texts, ascending. -/
def Report.texts (r : Report) : List String := r.suggestions.map (·.text)

/-- Why a request has no report. -/
inductive RequestError where
  | lexical (e : LexicalError)
  | noViableParse (e : NoViableParse)
  deriving Repr, DecidableEq

/-- The wording of a request error. -/
def RequestError.message : RequestError → String
  | lexical e => e.message
  | noViableParse e => e.message

namespace Grammar

/-- The texts of one kind that complete `fragment`, in the order of its spellings.  Skipped tokens have none. -/
def textsOf (g : Grammar) (case : CasePreference) (fragment : Option String) (kind : TokenKind) : List Suggestion :=
  if g.skips kind then []
  else
    let texts := (g.spellings kind).map case.apply
    let kept := match fragment with
      | none => texts
      | some f => texts.filter (case.completes · f)
    kept.map (⟨·, kind⟩)

/-- The suggestions for some kinds, ascending by text.  A text of several kinds belongs to the first of them. -/
def resolve (g : Grammar) (case : CasePreference) (fragment : Option String) (kinds : List TokenKind) :
    List Suggestion :=
  dropRepeated none ((kinds.flatMap (g.textsOf case fragment)).mergeSort fun a b => decide (a.text ≤ b.text))

/-- Everything about one input. -/
def suggest (g : Grammar) (options : Options) (input : String) : Except RequestError Report :=
  match g.tokenize options.limits input with
  | .error e => .error (.lexical e)
  | .ok read =>
    match g.simulate options.limits read.tokens with
    | .error e => .error (.noViableParse e)
    | .ok parsed =>
      let expected := g.expectation options.limits parsed.configurations
      .ok
        { suggestions := g.resolve options.case (read.unfinished.map (·.text)) expected.kinds
          unfinished := read.unfinished
          confirmed := read.tokens.length
          acceptsEnd := expected.acceptsEnd
          stats := read.stats + parsed.stats + expected.stats }

end Grammar

end Typeahead
