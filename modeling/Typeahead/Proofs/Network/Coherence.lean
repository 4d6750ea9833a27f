import Typeahead.Proofs.Network.Ownership
import Typeahead.Proofs.Network.Reachability

/-!
# Call stacks that agree with the states

In a run that began in a rule, the state belongs to the rule that was entered last, and each open invocation goes on in
the rule below it (`Network.Coherent`).  Each kind of move keeps this in a well-formed network, so it holds along runs
of any length (`Coherent.reads`), and a run that finishes does so at the stop of the rule it began in
(`Coherent.eq_initial_stop`).
-/

namespace Typeahead.Network

variable {σ τ : Type} {net : Network σ τ} {A : Label σ τ → Prop} {rule : RuleId} {s u : StateId} {stack : CallStack}
  {c c' : Configuration}

/-- The state belongs to the innermost of the open invocations, and each of them goes on in the one below it; the
outermost one, and the state if none is open, belong to `rule`. -/
def Coherent (net : Network σ τ) (rule : RuleId) : StateId → CallStack → Prop
  | s, [] => net.owner? s = some rule
  | s, frame :: below => net.owner? s = some frame.rule ∧ Coherent net rule frame.follow below

theorem Coherent.exists_owner (h : net.Coherent rule s stack) : ∃ owner, net.owner? s = some owner := by
  cases stack with
  | nil => exact ⟨rule, h⟩
  | cons frame below => exact ⟨frame.rule, h.1⟩

/-- Only the owner of the state matters. -/
theorem Coherent.congr (h : net.Coherent rule s stack) (hu : net.owner? u = net.owner? s) :
    net.Coherent rule u stack := by
  cases stack with
  | nil => exact hu.trans h
  | cons frame below => exact ⟨hu.trans h.1, h.2⟩

theorem coherent_initial (hn : net.WellFormed A) (hs : net.start? rule = some s) : net.Coherent rule s [] := by
  obtain ⟨info, hinfo, rfl⟩ := Option.map_eq_some_iff.1 hs
  exact hn.owner?_start hinfo

/-! ### Steps -/

theorem Coherent.move (h : net.Coherent rule c.state c.stack) (hn : net.WellFormed A) (hm : net.Move c c') :
    net.Coherent rule c'.state c'.stack := by
  cases hm with
  | epsilon ht => exact h.congr (hn.next ht rfl).2
  | @call callee follow start ht hs =>
    -- the caller goes on in its own rule
    have hfollow : net.Coherent rule follow c.stack := h.congr (hn.next ht rfl).2
    exact ⟨coherent_initial hn hs, hfollow⟩
  | @leave frame rest ht hs =>
    obtain ⟨s, stack⟩ := c
    cases stack with
    | nil => cases hs
    | cons frame rest =>
      cases hs
      exact h.2

theorem Coherent.reaches (h : net.Coherent rule c.state c.stack) (hn : net.WellFormed A) (hm : net.Reaches c c') :
    net.Coherent rule c'.state c'.stack := by
  induction hm with
  | refl => exact h
  | tail _ hm ih => exact ih.move hn hm

/-- A run that finishes has left all it entered, and is where the rule stops. -/
theorem Coherent.eq_initial_stop (h : net.Coherent rule c.state c.stack) (hn : net.WellFormed A)
    (hf : net.CanFinish c) : ∃ info, net.rules[rule]? = some info ∧ c = .initial info.stop := by
  obtain ⟨s, stack⟩ := c
  obtain ⟨rfl, ht⟩ := hf
  obtain ⟨info, hinfo, rfl⟩ := hn.leave ht
  obtain ⟨owner, howner⟩ := Array.mem_iff_getElem?.1 hinfo
  have hs : net.owner? info.stop = some owner := hn.owner?_stop howner
  have heq : owner = rule := Option.some.inj (hs.symm.trans h)
  exact ⟨info, heq ▸ howner, rfl⟩

/-! ### Runs -/

variable [DecidableEq σ] [SymbolSet τ σ] {x : σ} {w : List σ}

theorem Coherent.consumes (h : net.Coherent rule c.state c.stack) (hn : net.WellFormed A) (hx : net.Consumes c x c') :
    net.Coherent rule c'.state c'.stack := by
  cases hx with
  | mk ht _ => exact h.congr (hn.next ht rfl).2

theorem Coherent.reads (h : net.Coherent rule c.state c.stack) (hn : net.WellFormed A) (hr : net.Reads c w c') :
    net.Coherent rule c'.state c'.stack := by
  induction hr with
  | nil => exact h
  | cons hm hx _ ih => exact ih ((h.reaches hn hm).consumes hn hx)

/-- A run from the start of the rule has read the word, and has then moved on to the configuration. -/
def ComesFrom (net : Network σ τ) (rule : RuleId) (w : List σ) (c : Configuration) : Prop :=
  ∃ start m, net.start? rule = some start ∧ net.Reads (.initial start) w m ∧ net.Reaches m c

theorem ComesFrom.coherent (h : net.ComesFrom rule w c) (hn : net.WellFormed A) :
    net.Coherent rule c.state c.stack := by
  obtain ⟨start, m, hs, hr, hm⟩ := h
  have hstart : net.Coherent rule (Configuration.initial start).state (Configuration.initial start).stack :=
    coherent_initial hn hs
  exact (hstart.reads hn hr).reaches hn hm

end Typeahead.Network
