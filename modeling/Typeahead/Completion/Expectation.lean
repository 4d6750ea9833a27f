import Typeahead.Completion.Token

/-!
# Expectations

Confirmed tokens are read through the phrase network (`simulate`); from the configurations reached that way,
`expectation` gathers the kinds of token that may come next and tells whether the text may end there.
-/

namespace Typeahead

/-- No way through the phrase rules consumes the token with number `index`. -/
structure NoViableParse where
  index : Nat
  text : String
  /-- The name of the token. -/
  kind : String
  deriving Repr, DecidableEq

/-- The wording of a parse error. -/
def NoViableParse.message (e : NoViableParse) : String :=
  s!"No viable parse at token {e.index}: unexpected {e.kind} '{e.text}'"

/-- All configurations in which the confirmed tokens have been read. -/
structure Simulation where
  configurations : List Configuration
  stats : Stats
  deriving Repr, DecidableEq

/-- What may follow the confirmed tokens. -/
structure Expectation where
  /-- Kinds that may come next, ascending, each with the states that accept it, ascending. -/
  candidates : List (TokenKind × List StateId)
  /-- Whether the start rule can be complete. -/
  acceptsEnd : Bool
  stats : Stats
  bound : Option BoundExceeded
  deriving Repr, DecidableEq

/-- The kinds that may come next, ascending. -/
def Expectation.kinds (e : Expectation) : List TokenKind := e.candidates.map (·.1)

/-- The members of a list in ascending order, each once. -/
def sortedDistinct {α : Type} [BEq α] (le : α → α → Bool) (xs : List α) : List α := (xs.mergeSort le).eraseReps

/-- Gathers neighbouring pairs with the same kind. -/
def groupByKind : List (TokenKind × StateId) → List (TokenKind × List StateId)
  | [] => []
  | (kind, state) :: rest =>
    match groupByKind rest with
    | [] => [(kind, [state])]
    | (next, states) :: groups =>
      if kind = next then (kind, state :: states) :: groups else (kind, [state]) :: (next, states) :: groups

/-- The kinds that a transition accepts. -/
def Transition.kinds : Transition TokenKind (List TokenKind) → List TokenKind
  | .consume (.symbol kind) _ => [kind]
  | .consume (.oneOf kinds) _ => kinds
  | _ => []

namespace Grammar

/-- Reads tokens from the given configurations; `index` is the number of the first of them. -/
def simulateFrom (g : Grammar) (limits : Limits) (index : Nat) (configs : List Configuration) :
    List Token → Except NoViableParse Simulation
  | [] => .ok ⟨configs, {}⟩
  | token :: tokens =>
    let reached := g.phrase.closure limits configs
    match g.phrase.step reached.frontier token.kind with
    | [] => .error ⟨index, token.text, g.displayName token.kind⟩
    | next => (simulateFrom g limits (index + 1) next tokens).map fun s => { s with stats := reached.stats + s.stats }

/-- The configuration in which nothing has been read. -/
def phraseSeeds (g : Grammar) : List Configuration := (g.phrase.start? g.startRule).toList.map .initial

/-- Reads tokens from the start rule. -/
def simulate (g : Grammar) (limits : Limits) (tokens : List Token) : Except NoViableParse Simulation :=
  g.simulateFrom limits 0 g.phraseSeeds tokens

/-- What may come next in the given configurations. -/
def expectation (g : Grammar) (limits : Limits) (configs : List Configuration) : Expectation :=
  let reached := g.phrase.closure limits configs
  let states := sortedDistinct (fun a b => decide (a ≤ b)) (reached.frontier.map (·.state))
  let pairs := states.flatMap fun state =>
    (g.phrase.transitions state).flatMap fun t => t.kinds.map fun kind => (kind, state)
  let ordered := sortedDistinct (fun a b => decide (a.1 < b.1 ∨ a.1 = b.1 ∧ a.2 ≤ b.2)) pairs
  { candidates := groupByKind ordered
    acceptsEnd := reached.acceptsEnd
    stats := reached.stats
    bound := reached.bound }

end Grammar

end Typeahead
