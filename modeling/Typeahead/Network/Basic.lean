/-!
# Transition networks

A network is a directed graph of states grouped into rules.  Every rule owns a start and a stop state; edges
consume a symbol, consume nothing, enter another rule, or leave the current one.  The same networks serve the
lexical rules of a grammar, whose symbols are characters, and its phrase rules, whose symbols are token kinds:
`σ` is the type of symbols and `τ` the type of symbol sets.

A state or rule is named by its position, which a state also stores.  A position that does not exist has no
transitions and no start state, so walking a network never fails.
-/

namespace Typeahead

abbrev StateId := Nat

abbrev RuleId := Nat

/-- Sets of symbols that a single transition can consume. -/
class SymbolSet (τ : Type) (σ : outParam Type) where
  contains : τ → σ → Bool

/-- What a consuming transition accepts: one symbol, or any symbol of a set. -/
inductive Label (σ τ : Type) where
  | symbol (s : σ)
  | oneOf (set : τ)
  deriving Repr, DecidableEq

/-- Whether a label accepts a symbol. -/
def Label.accepts {σ τ : Type} [DecidableEq σ] [SymbolSet τ σ] : Label σ τ → σ → Bool
  | symbol s, x => s = x
  | oneOf set, x => SymbolSet.contains set x

/-- A labelled edge; its source is the state that lists it. -/
inductive Transition (σ τ : Type) where
  /-- Move on without consuming. -/
  | epsilon (target : StateId)
  /-- Consume one symbol. -/
  | consume (label : Label σ τ) (target : StateId)
  /-- Enter a rule and go on at `follow` once it is left. -/
  | call (rule : RuleId) (follow : StateId)
  /-- Leave the current rule. -/
  | leave
  deriving Repr, DecidableEq

namespace Transition

variable {σ τ : Type}

/-- Whether the transition consumes a symbol. -/
def consumes : Transition σ τ → Bool
  | consume _ _ => true
  | _ => false

/-- The state reached by consuming `x`, if the transition accepts it. -/
def target? [DecidableEq σ] [SymbolSet τ σ] (t : Transition σ τ) (x : σ) : Option StateId :=
  match t with
  | consume label target => if label.accepts x then some target else none
  | _ => none

end Transition

/-- The role of a state within its rule. -/
inductive StateKind where
  | basic
  | ruleStart
  | ruleStop
  /-- Entry of an alternation or of an optional part. -/
  | decision
  /-- Head of a repetition. -/
  | loop
  deriving Repr, DecidableEq

/-- A node of a network. -/
structure State (σ τ : Type) where
  id : StateId
  rule : RuleId
  kind : StateKind
  transitions : List (Transition σ τ)
  deriving Repr, DecidableEq

/-- The name and the two end points of a rule. -/
structure Rule where
  name : String
  start : StateId
  stop : StateId
  deriving Repr, DecidableEq

/-- A transition network. -/
structure Network (σ τ : Type) where
  states : Array (State σ τ)
  rules : Array Rule
  deriving Repr, DecidableEq

namespace Network

variable {σ τ : Type}

/-- The network without states and rules. -/
def empty : Network σ τ := ⟨#[], #[]⟩

instance : Inhabited (Network σ τ) := ⟨empty⟩

/-- Adds a state owned by `rule`; its id is the number of states before. -/
def addState (net : Network σ τ) (rule : RuleId) (kind : StateKind) : StateId × Network σ τ :=
  (net.states.size, { net with states := net.states.push ⟨net.states.size, rule, kind, []⟩ })

/-- Appends a transition to those that leave `source`. -/
def addTransition (net : Network σ τ) (source : StateId) (t : Transition σ τ) : Network σ τ :=
  { net with states := net.states.modify source fun s => { s with transitions := s.transitions ++ [t] } }

/-- Declares a rule with its start and stop states.  The stop state carries the only transition that leaves
the rule. -/
def addRule (net : Network σ τ) (name : String) : RuleId × Network σ τ :=
  let rule := net.rules.size
  let (start, net) := net.addState rule .ruleStart
  let (stop, net) := net.addState rule .ruleStop
  let net := net.addTransition stop .leave
  (rule, { net with rules := net.rules.push ⟨name, start, stop⟩ })

/-- The transitions that leave a state, in the order they were added. -/
def transitions (net : Network σ τ) (state : StateId) : List (Transition σ τ) :=
  match net.states[state]? with
  | some s => s.transitions
  | none => []

/-- The rule that owns a state. -/
def owner? (net : Network σ τ) (state : StateId) : Option RuleId := net.states[state]?.map (·.rule)

/-- The start state of a rule. -/
def start? (net : Network σ τ) (rule : RuleId) : Option StateId := net.rules[rule]?.map (·.start)

/-- The rule with the given name; of several, the one declared last. -/
def ruleNamed? (net : Network σ τ) (name : String) : Option RuleId :=
  (List.range net.rules.size).reverse.find? fun i => (net.rules[i]?.map (·.name)) = some name

/-- The start state of the rule with the given name. -/
def startNamed? (net : Network σ τ) (name : String) : Option StateId :=
  (net.ruleNamed? name).bind net.start?

/-- Whether a state has a transition that consumes a symbol. -/
def consumesAt (net : Network σ τ) (state : StateId) : Bool := (net.transitions state).any (·.consumes)

end Network

end Typeahead
