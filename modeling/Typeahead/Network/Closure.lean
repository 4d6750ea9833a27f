import Typeahead.Network.Configuration

/-!
# Closures

The closure of some configurations is all that is reachable from them without consuming a symbol.  It is found
breadth first.  Two limits keep it finite: a rule is not entered again once it has been opened `reentry` times
by the same closure, and at most `configurations` configurations are explored.

`closure` gives the configurations that can consume a symbol (`frontier`) and those that have left the outermost
rule (`completed`), both in the order of discovery; `step` moves a frontier across one symbol.
-/

namespace Typeahead

/-- The limits on one closure. -/
structure Limits where
  /-- How often a rule may be opened within itself without consuming a symbol. -/
  reentry : Nat := 16
  /-- How many configurations may be explored. -/
  configurations : Nat := 100000
  deriving Repr, DecidableEq

/-- What a request explored. -/
structure Stats where
  /-- Configurations explored. -/
  explored : Nat := 0
  /-- Rule calls not followed because of the re-entry limit. -/
  prunedCalls : Nat := 0
  /-- Closures cut short by the limit on configurations. -/
  truncated : Nat := 0
  deriving Repr, DecidableEq

/-- Counters of two explorations are added field by field. -/
instance : Add Stats :=
  ⟨fun a b => ⟨a.explored + b.explored, a.prunedCalls + b.prunedCalls, a.truncated + b.truncated⟩⟩

/-- The limit on configurations cut a closure short.  Never fatal: the search goes on with what was found. -/
structure BoundExceeded where
  limit : Nat
  explored : Nat
  deriving Repr, DecidableEq

/-- The wording of an exceeded limit. -/
def BoundExceeded.message (b : BoundExceeded) : String :=
  s!"Exploration bound exceeded: {b.explored} configurations explored (limit {b.limit})"

/-- A configuration waiting to be explored.  The frames below `watermark` were open before the closure began and
do not count towards the re-entry limit. -/
structure Pending where
  config : Configuration
  watermark : Nat
  deriving Repr, DecidableEq

namespace Pending

/-- A starting point of a closure: all its frames were open before. -/
def ofSeed (c : Configuration) : Pending := ⟨c, c.stack.depth⟩

/-- How many of the frames that the closure opened belong to `rule`. -/
def reentries (p : Pending) (rule : RuleId) : Nat :=
  (p.config.stack.take (p.config.stack.depth - p.watermark)).countP (·.rule = rule)

end Pending

namespace Network

variable {σ τ : Type}

/-- Whether a transition calls a rule that may not be opened again. -/
def prunes (reentry : Nat) (p : Pending) : Transition σ τ → Bool
  | .call rule _ => reentry ≤ p.reentries rule
  | _ => false

/-- Where a transition leads without consuming a symbol.  Leaving the outermost rule leads nowhere. -/
def move? (net : Network σ τ) (reentry : Nat) (p : Pending) : Transition σ τ → Option Pending
  | .epsilon target => some ⟨p.config.movedTo target, p.watermark⟩
  | .consume _ _ => none
  | .call rule follow =>
    if reentry ≤ p.reentries rule then none
    else (net.start? rule).map fun start => ⟨⟨start, p.config.stack.push ⟨rule, follow⟩⟩, p.watermark⟩
  | .leave =>
    match p.config.stack.pop? with
    | none => none
    | some (frame, rest) => some ⟨⟨frame.follow, rest⟩, min p.watermark rest.depth⟩

/-- All that is reachable in one move, in the order of the transitions. -/
def moves (net : Network σ τ) (reentry : Nat) (p : Pending) : List Pending :=
  (net.transitions p.config.state).filterMap (net.move? reentry p)

/-- How many calls are not followed from here. -/
def prunedCalls (net : Network σ τ) (reentry : Nat) (p : Pending) : Nat :=
  (net.transitions p.config.state).countP (prunes reentry p)

/-- How often a configuration leaves the outermost rule. -/
def completions (net : Network σ τ) (c : Configuration) : Nat :=
  if c.stack.isEmpty then (net.transitions c.state).countP (fun | .leave => true | _ => false) else 0

end Network

/-- The state of a breadth-first search. -/
structure Exploration where
  /-- The explored configurations, in the order of discovery. -/
  visited : ConfigurationSet
  prunedCalls : Nat
  /-- Whether the limit on configurations ended the search. -/
  truncated : Bool

namespace Exploration

/-- The search before its first configuration. -/
def start : Exploration := ⟨.empty, 0, false⟩

variable {σ τ : Type}

/-- Explores `todo`, then the `later` configurations, which are listed latest first.  A configuration met again
is skipped before the limit is looked at. -/
def run (net : Network σ τ) (limits : Limits) (todo later : List Pending) (found : Exploration) : Exploration :=
  match todo with
  | [] => if later = [] then found else run net limits later.reverse [] found
  | p :: todo =>
    if found.visited.contains p.config then run net limits todo later found
    else if limits.configurations ≤ found.visited.size then { found with truncated := true }
    else
      run net limits todo ((net.moves limits.reentry p).reverse ++ later)
        { found with
          visited := found.visited.push p.config
          prunedCalls := found.prunedCalls + net.prunedCalls limits.reentry p }
termination_by (limits.configurations - found.visited.size, todo.length + 2 * later.length)
decreasing_by
  · have : 0 < later.length := List.length_pos_iff.2 (by assumption)
    apply Prod.Lex.right
    simp
    omega
  · apply Prod.Lex.right
    simp
  · apply Prod.Lex.left
    simp
    omega

end Exploration

/-- The result of a closure. -/
structure Closure where
  /-- All that was explored. -/
  visited : List Configuration
  /-- The explored configurations that can consume a symbol. -/
  frontier : List Configuration
  /-- The explored configurations that leave the outermost rule. -/
  completed : List Configuration
  stats : Stats
  bound : Option BoundExceeded

/-- Whether the outermost rule can end here. -/
def Closure.acceptsEnd (c : Closure) : Bool := !c.completed.isEmpty

namespace Network

variable {σ τ : Type}

/-- Everything reachable from `seeds` without consuming a symbol. -/
def closure (net : Network σ τ) (limits : Limits) (seeds : List Configuration) : Closure :=
  let found := Exploration.run net limits (seeds.map .ofSeed) [] .start
  let visited := found.visited.toList
  { visited
    frontier := visited.filter fun c => net.consumesAt c.state
    completed := visited.flatMap fun c => List.replicate (net.completions c) c
    stats := ⟨visited.length, found.prunedCalls, if found.truncated then 1 else 0⟩
    bound := if found.truncated then some ⟨limits.configurations, visited.length⟩ else none }

/-- Every configuration of the frontier, moved across each transition that accepts `x`. -/
def step [DecidableEq σ] [SymbolSet τ σ] (net : Network σ τ) (frontier : List Configuration) (x : σ) :
    List Configuration :=
  (ConfigurationSet.ofList (frontier.flatMap fun c =>
    (net.transitions c.state).filterMap fun t => (t.target? x).map c.movedTo)).toList

end Network

end Typeahead
