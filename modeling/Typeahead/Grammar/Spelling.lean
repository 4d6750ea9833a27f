import Typeahead.Grammar.Pattern

/-!
# Spellings

A token is literal when every path through its lexical rule spells one fixed text: single characters, sets with
one spelling and references to fragments only.  Anything else makes it patterned: a set without a spelling, a
loop, fragments nested too deep, or too many spellings.  `Network.spellings?` walks all paths depth first.
-/

namespace Typeahead

/-- The lexical network of a grammar. -/
abbrev LexicalNetwork := Network Char Text.CharSet

/-- The most spellings a literal token can have. -/
def maxSpellings : Nat := 256

/-- How many fragments may be open at once while a token is walked. -/
def maxFragmentDepth : Nat := 32

/-- A place on a walk: a state, and the states at which the open fragments go on, innermost first. -/
structure WalkPosition where
  state : StateId
  returns : List StateId
  deriving Repr, DecidableEq

namespace Network

/-- Walks on from `position`, where `text` has been spelled (last character first), and adds each spelling that
is completed to `found`.  `path` lists the positions walked through; meeting one of them again is a loop.  Each
level of the walk uses up one unit of fuel. -/
def walk (net : LexicalNetwork) :
    Nat → List WalkPosition → WalkPosition → List Char → List String → Option (List String)
  | 0, _, _, _, _ => none
  | fuel + 1, path, position, text, found =>
    if position ∈ path then none
    else
      (net.transitions position.state).foldlM (fun found t =>
        match t with
        | .epsilon target => walk net fuel (position :: path) ⟨target, position.returns⟩ text found
        | .consume (.symbol c) target =>
          walk net fuel (position :: path) ⟨target, position.returns⟩ (c :: text) found
        | .consume (.oneOf set) target =>
          match set.spelling? with
          | none => none
          | some c => walk net fuel (position :: path) ⟨target, position.returns⟩ (c :: text) found
        | .call rule follow =>
          if maxFragmentDepth ≤ position.returns.length then none
          else match net.start? rule with
            | none => none
            | some start => walk net fuel (position :: path) ⟨start, follow :: position.returns⟩ text found
        | .leave =>
          match position.returns with
          | follow :: returns => walk net fuel (position :: path) ⟨follow, returns⟩ text found
          | [] =>
            let spelling := String.ofList text.reverse
            if found.contains spelling then some found
            else if maxSpellings ≤ found.length then none
            else some (found ++ [spelling])) found

/-- How many positions there are with at most `depth` open fragments. -/
def positionCount (states : Nat) : Nat → Nat
  | 0 => states
  | depth + 1 => states * (1 + positionCount states depth)

/-- More levels than a walk without loops can have. -/
def walkFuel (net : LexicalNetwork) : Nat := positionCount (net.states.size + 1) maxFragmentDepth + 1

/-- The spellings of a lexical rule in the order of discovery, or `none` if the rule is patterned. -/
def spellings? (net : LexicalNetwork) (rule : RuleId) : Option (List String) :=
  match net.start? rule with
  | none => none
  | some start =>
    match walk net net.walkFuel [] ⟨start, []⟩ [] [] with
    | some (s :: rest) => some (s :: rest)
    | _ => none

end Network

end Typeahead
