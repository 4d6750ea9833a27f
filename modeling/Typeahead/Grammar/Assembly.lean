import Typeahead.Grammar.Pattern

/-!
# Networks of patterns

A resolved pattern is laid out in a network between two states: `layOut` starts at an entry state and returns the
state in which the pattern has been matched.  Parts are glued together with transitions that consume nothing.
All states it adds belong to the rule whose body it lays out.
-/

namespace Typeahead.Network

variable {σ τ : Type}

mutual

/-- Lays out a pattern of `rule` from the state `entry`; returns its exit and the extended network. -/
def layOut (rule : RuleId) : ResolvedPattern σ τ → StateId → Network σ τ → StateId × Network σ τ
  | .empty, entry, net => (entry, net)
  | .atom label, entry, net =>
    let (target, net) := net.addState rule .basic
    (target, net.addTransition entry (.consume label target))
  | .ref callee, entry, net =>
    let (follow, net) := net.addState rule .basic
    (follow, net.addTransition entry (.call callee follow))
  | .seq items, entry, net => layOutSequence rule items entry net
  | .alt items, entry, net =>
    let (decision, net) := net.addState rule .decision
    let net := net.addTransition entry (.epsilon decision)
    let (exit, net) := net.addState rule .basic
    (exit, layOutAlternatives rule items decision exit net)
  | .optional body, entry, net =>
    let (decision, net) := net.addState rule .decision
    let net := net.addTransition entry (.epsilon decision)
    let (inside, net) := net.addState rule .basic
    let (exit, net) := net.addState rule .basic
    let net := net.addTransition decision (.epsilon inside)
    let net := net.addTransition decision (.epsilon exit)
    let (last, net) := layOut rule body inside net
    (exit, net.addTransition last (.epsilon exit))
  | .many body, entry, net =>
    let (head, net) := net.addState rule .loop
    let net := net.addTransition entry (.epsilon head)
    let (inside, net) := net.addState rule .basic
    let (exit, net) := net.addState rule .basic
    let net := net.addTransition head (.epsilon inside)
    let net := net.addTransition head (.epsilon exit)
    let (last, net) := layOut rule body inside net
    (exit, net.addTransition last (.epsilon head))
  | .many1 body, entry, net =>
    let (head, net) := net.addState rule .loop
    let net := net.addTransition entry (.epsilon head)
    let (exit, net) := net.addState rule .basic
    let (last, net) := layOut rule body head net
    let net := net.addTransition last (.epsilon head)
    (exit, net.addTransition last (.epsilon exit))

/-- Lays out the items of a sequence one behind the other. -/
def layOutSequence (rule : RuleId) :
    List (ResolvedPattern σ τ) → StateId → Network σ τ → StateId × Network σ τ
  | [], entry, net => (entry, net)
  | p :: ps, entry, net =>
    let (next, net) := layOut rule p entry net
    layOutSequence rule ps next net

/-- Lays out alternatives side by side, each between `decision` and `exit`. -/
def layOutAlternatives (rule : RuleId) :
    List (ResolvedPattern σ τ) → StateId → StateId → Network σ τ → Network σ τ
  | [], _, _, net => net
  | p :: ps, decision, exit, net =>
    let (branch, net) := net.addState rule .basic
    let net := net.addTransition decision (.epsilon branch)
    let (last, net) := layOut rule p branch net
    layOutAlternatives rule ps decision exit (net.addTransition last (.epsilon exit))

end

/-- Lays out the body of a declared rule between its start and its stop state. -/
def layOutRule (net : Network σ τ) (rule : RuleId) (body : ResolvedPattern σ τ) : Network σ τ :=
  match net.rules[rule]? with
  | none => net
  | some info =>
    let (last, net) := layOut rule body info.start net
    net.addTransition last (.epsilon info.stop)

end Typeahead.Network
