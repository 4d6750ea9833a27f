import Typeahead.Proofs.Network.InRange
import Typeahead.Proofs.Network.LeftCalls
import Typeahead.Proofs.Network.Truncation

/-!
# Networks without calls

A network that calls no rule is a finite automaton.  With no invocation open in the beginning none is ever open, so a
configuration is a state, and a closure explores no more configurations than there are states
(`length_visited_le`).  A limit above that number cuts no closure short (`CallFree.exhaustive_closure`).
-/

namespace Typeahead

/-- Whether the transition enters a rule. -/
def Transition.calls {σ τ : Type} : Transition σ τ → Bool
  | .call _ _ => true
  | _ => false

namespace Network

variable {σ τ : Type} {net : Network σ τ} {limits : Limits} {seeds : List Configuration} {c c' : Configuration}

/-- No transition enters a rule. -/
def CallFree (net : Network σ τ) : Prop := ∀ s ∈ net.states.toList, ∀ t ∈ s.transitions, t.calls = false

instance (net : Network σ τ) : Decidable net.CallFree :=
  decidable_of_iff ((net.states.toList.all fun s => s.transitions.all fun t => !t.calls) = true) (by
    simp only [CallFree, List.all_eq_true, Bool.not_eq_true'])

theorem CallFree.call_not_mem (h : net.CallFree) {s follow : StateId} {callee : RuleId} :
    .call callee follow ∉ net.transitions s := by
  intro ht
  unfold transitions at ht
  split at ht
  · rename_i state hs
    exact Bool.noConfusion (h state (Array.mem_toList_iff.2 (Array.mem_of_getElem? hs)) _ ht)
  · cases ht

theorem CallFree.noLeftCycle (h : net.CallFree) : net.NoLeftCycle := by
  intro rule hc
  obtain ⟨_, ⟨_, _, _, -, -, ht⟩, -⟩ := Relation.TransGen.head'_iff.1 hc
  exact h.call_not_mem ht

/-- A state of the network with no invocation open. -/
def IsState (net : Network σ τ) (c : Configuration) : Prop := c.state < net.states.size ∧ c.stack = []

/-! ### Closures -/

theorem IsState.move (hc : net.IsState c) (hn : net.InRange) (hf : net.CallFree) (h : net.Move c c') :
    net.IsState c' := by
  obtain ⟨s, stack⟩ := c
  obtain ⟨-, rfl⟩ := hc
  cases h with
  | epsilon h => exact ⟨hn.next_lt h rfl, rfl⟩
  | call h => exact absurd h hf.call_not_mem
  | leave h hs => cases hs

theorem IsState.reaches (hc : net.IsState c) (hn : net.InRange) (hf : net.CallFree) (h : net.Reaches c c') :
    net.IsState c' := by
  induction h with
  | refl => exact hc
  | tail _ hm ih => exact ih.move hn hf hm

theorem isState_of_mem_visited (hn : net.InRange) (hf : net.CallFree) (hs : ∀ c ∈ seeds, net.IsState c)
    (hc : c ∈ (net.closure limits seeds).visited) : net.IsState c := by
  obtain ⟨seed, hseed, hm⟩ := reachable_of_mem_visited hc
  exact (hs seed hseed).reaches hn hf hm

/-- Each state is explored once at most. -/
theorem length_visited_le (hn : net.InRange) (hf : net.CallFree) (hs : ∀ c ∈ seeds, net.IsState c) :
    (net.closure limits seeds).visited.length ≤ net.states.size := by
  have hsub : (net.closure limits seeds).visited ⊆ (List.range net.states.size).map .initial := by
    rintro ⟨s, stack⟩ hc
    obtain ⟨hlt, rfl⟩ := isState_of_mem_visited hn hf hs hc
    exact List.mem_map.2 ⟨s, List.mem_range.2 hlt, rfl⟩
  calc (net.closure limits seeds).visited.length
      ≤ ((List.range net.states.size).map Configuration.initial).length :=
        (List.subperm_of_subset nodup_visited hsub).length_le
    _ = net.states.size := by rw [List.length_map, List.length_range]

/-- If there are fewer states than configurations may be explored, all that is reachable is explored. -/
theorem CallFree.exhaustive_closure (hf : net.CallFree) (hn : net.InRange) (hr : 1 ≤ limits.reentry)
    (hlt : net.states.size < limits.configurations) (hs : ∀ c ∈ seeds, net.IsState c) :
    (net.closure limits seeds).Exhaustive := by
  refine ⟨prunedCalls_closure_eq_zero hf.noLeftCycle hr seeds, ?_⟩
  by_contra hb
  have hle := le_length_of_bound_ne_none hb
  have hle' : (net.closure limits seeds).visited.length ≤ net.states.size := length_visited_le hn hf hs
  omega

/-! ### Steps -/

variable [DecidableEq σ] [SymbolSet τ σ]

theorem isState_of_mem_step (hn : net.InRange) {frontier : List Configuration} (hs : ∀ c ∈ frontier, net.IsState c)
    {x : σ} {c : Configuration} (hc : c ∈ net.step frontier x) : net.IsState c := by
  obtain ⟨c₀, hc₀, hx⟩ := mem_step_iff.1 hc
  cases hx with
  | mk h => exact ⟨hn.next_lt h rfl, (hs c₀ hc₀).2⟩

end Network

end Typeahead
