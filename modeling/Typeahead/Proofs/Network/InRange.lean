import Typeahead.Proofs.Network.Ownership

/-!
# Networks without dangling ids

In a well-formed network every transition leads to a state that exists, every rule that is called is declared, and every
rule has its end points (`WellFormed.inRange`).  This much can be checked state by state (`inRange_iff`), and it is all
that most facts about searches need.
-/

namespace Typeahead

open Network

/-- Whether a transition leads to one of `states` states and calls one of `rules` rules. -/
def Transition.within {σ τ : Type} (states rules : Nat) : Transition σ τ → Bool
  | epsilon target => target < states
  | consume _ target => target < states
  | call rule follow => rule < rules && follow < states
  | leave => true

theorem Transition.within_iff {σ τ : Type} {states rules : Nat} {t : Transition σ τ} :
    t.within states rules = true ↔ (∀ u, t.next? = some u → u < states) ∧
      ∀ callee follow, t = .call callee follow → callee < rules := by
  cases t <;> simp [within, next?, and_comm]

namespace Network

variable {σ τ : Type} {net : Network σ τ} {rule : RuleId}

/-- The states and the rules that the network names exist. -/
structure InRange (net : Network σ τ) : Prop where
  next_lt : ∀ {s t u}, t ∈ net.transitions s → t.next? = some u → u < net.states.size
  callee_lt : ∀ {s callee follow}, .call callee follow ∈ net.transitions s → callee < net.rules.size
  ends_lt : ∀ {rule : RuleId} {info}, net.rules[rule]? = some info →
    info.start < net.states.size ∧ info.stop < net.states.size

theorem exists_state_of_mem_transitions {s : StateId} {t : Transition σ τ} (h : t ∈ net.transitions s) :
    ∃ state ∈ net.states, t ∈ state.transitions := by
  unfold transitions at h
  split at h
  · rename_i state hs
    exact ⟨state, Array.mem_of_getElem? hs, h⟩
  · cases h

theorem transitions_of_getElem? {s : StateId} {state : State σ τ} (h : net.states[s]? = some state) :
    net.transitions s = state.transitions := by
  unfold transitions
  rw [h]

theorem inRange_iff : net.InRange ↔
    (∀ state ∈ net.states, ∀ t ∈ state.transitions, t.within net.states.size net.rules.size = true) ∧
      ∀ info ∈ net.rules, info.start < net.states.size ∧ info.stop < net.states.size := by
  constructor
  · intro h
    refine ⟨fun state hs t ht => ?_, fun info hr => ?_⟩
    · obtain ⟨s, hs⟩ := Array.mem_iff_getElem?.1 hs
      rw [← transitions_of_getElem? hs] at ht
      exact Transition.within_iff.2 ⟨fun u => h.next_lt ht, fun callee follow he => h.callee_lt (he ▸ ht)⟩
    · obtain ⟨rule, hr⟩ := Array.mem_iff_getElem?.1 hr
      exact h.ends_lt hr
  · rintro ⟨hstates, hrules⟩
    have hwithin : ∀ {s t}, t ∈ net.transitions s → t.within net.states.size net.rules.size = true := by
      intro s t ht
      obtain ⟨state, hs, ht⟩ := exists_state_of_mem_transitions ht
      exact hstates state hs t ht
    exact ⟨fun ht => (Transition.within_iff.1 (hwithin ht)).1 _,
      fun ht => (Transition.within_iff.1 (hwithin ht)).2 _ _ rfl,
      fun hr => hrules _ (Array.mem_of_getElem? hr)⟩

instance (net : Network σ τ) : Decidable net.InRange := decidable_of_iff _ inRange_iff.symm

theorem InRange.start_lt (h : net.InRange) {start : StateId} (hs : net.start? rule = some start) :
    start < net.states.size := by
  obtain ⟨info, hinfo, rfl⟩ := Option.map_eq_some_iff.1 hs
  exact (h.ends_lt hinfo).1

theorem InRange.exists_start? (h : net.InRange) {s follow : StateId} {callee : RuleId}
    (ht : .call callee follow ∈ net.transitions s) : ∃ start, net.start? callee = some start := by
  unfold start?
  rw [Array.getElem?_eq_getElem (h.callee_lt ht)]
  exact ⟨_, rfl⟩

theorem WellFormed.inRange {A : Label σ τ → Prop} (h : net.WellFormed A) : net.InRange := by
  refine ⟨fun ht hu => (h.next ht hu).1, fun ht => h.all ht, fun hr => ⟨?_, ?_⟩⟩
  · exact lt_size_of_owner? (h.owner?_start hr)
  · exact lt_size_of_owner? (h.owner?_stop hr)

end Network

namespace Declarations

variable {d : Declarations} {g : Grammar}

/-- The lexical network of a built grammar has no dangling ids. -/
theorem Built.inRange_lexical (h : Built d g) : g.lexical.InRange := h.wellFormed_lexical.inRange

end Declarations

end Typeahead
