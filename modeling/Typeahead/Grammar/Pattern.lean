import Typeahead.Network.Basic
import Typeahead.Text.CharSet

/-!
# Patterns

The bodies of lexical and phrase rules are patterns: regular expressions over atoms that may also refer to other
rules.  `α` is the type of atoms and `ρ` the type of references.  As written, references are rule names
(`LexPattern`, `PhrasePattern`); `Pattern.resolve` replaces atoms by network labels and names by rule ids.
-/

namespace Typeahead

/-- The number of a token, which is also its priority: the lower kind wins a tie. -/
abbrev TokenKind := Nat

instance : SymbolSet Text.CharSet Char := ⟨Text.CharSet.contains⟩

instance : SymbolSet (List TokenKind) TokenKind := ⟨fun kinds kind => kinds.contains kind⟩

/-- A rule body. -/
inductive Pattern (α ρ : Type) where
  /-- Matches the empty text. -/
  | empty
  | atom (a : α)
  /-- All that another rule matches. -/
  | ref (rule : ρ)
  | seq (items : List (Pattern α ρ))
  /-- One of several alternatives; without alternatives nothing matches. -/
  | alt (items : List (Pattern α ρ))
  | optional (body : Pattern α ρ)
  /-- Any number of repetitions, also none. -/
  | many (body : Pattern α ρ)
  /-- At least one repetition. -/
  | many1 (body : Pattern α ρ)
  deriving Repr

/-- An atom of a lexical pattern.  Class bodies are read when the grammar is built. -/
inductive LexAtom where
  | char (c : Char)
  | set (s : Text.CharSet)
  | inClass (body : String)
  | notInClass (body : String)
  deriving Repr, DecidableEq

/-- Patterns of lexical rules; references are names of fragments or tokens. -/
abbrev LexPattern := Pattern LexAtom String

/-- Patterns of phrase rules; atoms are token names and references are rule names. -/
abbrev PhrasePattern := Pattern String String

/-- Patterns whose atoms are labels of a network over `σ` and `τ` and whose references are its rules. -/
abbrev ResolvedPattern (σ τ : Type) := Pattern (Label σ τ) RuleId

namespace Pattern

variable {α β ρ κ ε : Type}

mutual

/-- Replaces atoms and references from left to right; the first failure is the result. -/
def resolve (atom : α → Except ε β) (ref : ρ → Except ε κ) : Pattern α ρ → Except ε (Pattern β κ)
  | .empty => .ok .empty
  | .atom a => (atom a).map .atom
  | .ref r => (ref r).map .ref
  | .seq items => (resolveAll atom ref items).map .seq
  | .alt items => (resolveAll atom ref items).map .alt
  | .optional body => (resolve atom ref body).map .optional
  | .many body => (resolve atom ref body).map .many
  | .many1 body => (resolve atom ref body).map .many1

/-- Resolves the items of a list from left to right. -/
def resolveAll (atom : α → Except ε β) (ref : ρ → Except ε κ) :
    List (Pattern α ρ) → Except ε (List (Pattern β κ))
  | [] => .ok []
  | p :: ps => do
    let q ← resolve atom ref p
    let qs ← resolveAll atom ref ps
    pure (q :: qs)

end

/-- The one item of a singleton, otherwise the alternation of all items. -/
def ofAlternatives : List (Pattern α ρ) → Pattern α ρ
  | [p] => p
  | ps => .alt ps

/-- The one item of a singleton, the empty pattern for none, otherwise the sequence of all items. -/
def ofSequence : List (Pattern α ρ) → Pattern α ρ
  | [] => .empty
  | [p] => p
  | ps => .seq ps

/-- The alternatives of a pattern; a pattern that is no alternation is its only alternative. -/
def alternatives : Pattern α ρ → List (Pattern α ρ)
  | .alt ps => ps
  | p => [p]

/-! ### Left recursion -/

/-- What follows the leading reference to `name`, if the alternative begins with one. -/
def afterSelf? (name : String) : Pattern α String → Option (Pattern α String)
  | .ref callee => if callee = name then some .empty else none
  | .seq (.ref callee :: rest) => if callee = name then some (ofSequence rest) else none
  | _ => none

/-- Whether a pattern is the empty one. -/
def isEmpty : Pattern α ρ → Bool
  | .empty => true
  | _ => false

/-- Turns the direct left recursion `a: a X | a Y | B | C` into the loop `a: (B | C) (X | Y)*`.  A bare reference
of a rule to itself derives nothing new and is dropped.  There is no result when no alternative is left recursive,
or when all are and there is nothing to begin with. -/
def withoutLeftRecursion? (name : String) (body : Pattern α String) : Option (Pattern α String) :=
  let tails := body.alternatives.filterMap (afterSelf? name)
  let bases := body.alternatives.filter fun p => (afterSelf? name p).isNone
  if tails.isEmpty || bases.isEmpty then none
  else
    match tails.filter (!·.isEmpty) with
    | [] => some (ofAlternatives bases)
    | tails => some (.seq [ofAlternatives bases, .many (ofAlternatives tails)])

/-! ### Merging alternatives -/

/-- The symbols of a list of single-symbol atoms, if it holds nothing else. -/
def symbols? {σ τ : Type} : List (Pattern (Label σ τ) ρ) → Option (List σ)
  | [] => some []
  | .atom (.symbol s) :: ps => (symbols? ps).map (s :: ·)
  | _ :: _ => none

mutual

/-- Replaces every alternation of two or more single symbols by one set of symbols, without duplicates and in
the order of first mention. -/
def mergeSymbols {σ : Type} [BEq σ] : Pattern (Label σ (List σ)) ρ → Pattern (Label σ (List σ)) ρ
  | .alt ps =>
    match symbols? ps with
    | some (a :: b :: rest) => .atom (.oneOf (a :: b :: rest).eraseDups)
    | _ => .alt (mergeSymbolsAll ps)
  | .seq ps => .seq (mergeSymbolsAll ps)
  | .optional p => .optional (mergeSymbols p)
  | .many p => .many (mergeSymbols p)
  | .many1 p => .many1 (mergeSymbols p)
  | .empty => .empty
  | .atom a => .atom a
  | .ref r => .ref r

/-- Merges inside each item of a list. -/
def mergeSymbolsAll {σ : Type} [BEq σ] :
    List (Pattern (Label σ (List σ)) ρ) → List (Pattern (Label σ (List σ)) ρ)
  | [] => []
  | p :: ps => mergeSymbols p :: mergeSymbolsAll ps

end

/-! ### Lexical patterns -/

/-- The pattern that matches exactly `text`. -/
def literal (text : String) : LexPattern :=
  match text.toList with
  | [c] => .atom (.char c)
  | cs => .seq (cs.map fun c => .atom (.char c))

/-- The pattern that matches `text` in any letter case; `text` is the declared spelling. -/
def caseless (text : String) : LexPattern :=
  .seq (text.toList.map fun c => .atom (if Text.isAlphabetic c then .set (.anyCase c) else .char c))

/-- The pattern that matches one of the given texts. -/
def literals (texts : List String) : LexPattern := .alt (texts.map literal)

/-- A character inside the class with the given body. -/
def inClass (body : String) : LexPattern := .atom (.inClass body)

/-- A character outside the class with the given body. -/
def notInClass (body : String) : LexPattern := .atom (.notInClass body)

end Pattern

end Typeahead
