import Mathlib.Data.List.Induction
import Typeahead.Grammar.Declarations

/-!
# Networks under construction

What `addState`, `addTransition` and `addRule` do to the transitions and the owners of states.  A network under
construction only gains states and transitions (`Extends`), and the states of declared rules are known by their numbers
(`declares_declareRules`).
-/

namespace Typeahead.Network

variable {σ τ : Type} {net net' net'' : Network σ τ}

/-! ### Adding states and transitions -/

@[simp, grind =] theorem size_states_addState (net : Network σ τ) (rule : RuleId) (kind : StateKind) :
    (net.addState rule kind).2.states.size = net.states.size + 1 := by
  simp [addState]

@[simp, grind =] theorem size_states_addTransition (net : Network σ τ) (source : StateId) (t : Transition σ τ) :
    (net.addTransition source t).states.size = net.states.size := by
  simp [addTransition]

/-- A new state has no transitions, like a state that does not exist. -/
@[simp] theorem transitions_addState (net : Network σ τ) (rule : RuleId) (kind : StateKind) (s : StateId) :
    (net.addState rule kind).2.transitions s = net.transitions s := by
  unfold transitions addState
  rw [Array.getElem?_push]
  split
  · rename_i hs
    split at hs
    · cases hs
      subst s
      simp
    · rw [hs]
  · rename_i hs
    split at hs
    · cases hs
    · rw [hs]

theorem owner?_addState (net : Network σ τ) (rule : RuleId) (kind : StateKind) (s : StateId) :
    (net.addState rule kind).2.owner? s = if s = net.states.size then some rule else net.owner? s := by
  unfold owner? addState
  rw [Array.getElem?_push]
  split <;> rfl

@[simp] theorem owner?_addTransition (net : Network σ τ) (source : StateId) (t : Transition σ τ) (s : StateId) :
    (net.addTransition source t).owner? s = net.owner? s := by
  unfold owner? addTransition
  rw [Array.getElem?_modify]
  split
  · rw [Option.map_map]
    rfl
  · rfl

theorem lt_size_of_owner? {s : StateId} {rule : RuleId} (h : net.owner? s = some rule) : s < net.states.size := by
  obtain ⟨state, hs, -⟩ := Option.map_eq_some_iff.1 h
  exact (Array.getElem?_eq_some_iff.1 hs).1

theorem exists_owner? {s : StateId} (h : s < net.states.size) : ∃ rule, net.owner? s = some rule := by
  unfold owner?
  rw [Array.getElem?_eq_getElem h]
  exact ⟨_, rfl⟩

theorem lt_size_of_mem_transitions {s : StateId} {t : Transition σ τ} (h : t ∈ net.transitions s) :
    s < net.states.size := by
  unfold transitions at h
  split at h
  · rename_i hs
    exact (Array.getElem?_eq_some_iff.1 hs).1
  · cases h

theorem transitions_eq_nil {s : StateId} (h : net.states.size ≤ s) : net.transitions s = [] :=
  List.eq_nil_iff_forall_not_mem.2 fun _ ht => Nat.not_lt.2 h (lt_size_of_mem_transitions ht)

theorem mem_transitions_addTransition {source s : StateId} {t t' : Transition σ τ} (hs : source < net.states.size) :
    t' ∈ (net.addTransition source t).transitions s ↔ t' ∈ net.transitions s ∨ s = source ∧ t' = t := by
  unfold transitions addTransition
  rw [Array.getElem?_modify]
  by_cases h : source = s
  · subst h
    simp [hs]
  · have h' : s ≠ source := fun hs => h hs.symm
    simp [h, h']

theorem transitions_addTransition_of_ne {source s : StateId} {t : Transition σ τ} (h : s ≠ source) :
    (net.addTransition source t).transitions s = net.transitions s := by
  unfold transitions addTransition
  rw [Array.getElem?_modify, if_neg (Ne.symm h)]

/-! ### Growing networks -/

/-- All states and transitions are kept, and no rule is declared. -/
structure Extends (net net' : Network σ τ) : Prop where
  size_le : net.states.size ≤ net'.states.size
  mem_transitions : ∀ {s t}, t ∈ net.transitions s → t ∈ net'.transitions s
  rules : net'.rules = net.rules

theorem Extends.refl (net : Network σ τ) : net.Extends net := ⟨Nat.le_refl _, id, rfl⟩

theorem Extends.trans (h : net.Extends net') (h' : net'.Extends net'') : net.Extends net'' :=
  ⟨Nat.le_trans h.size_le h'.size_le, fun ht => h'.mem_transitions (h.mem_transitions ht), h'.rules.trans h.rules⟩

theorem Extends.lt_size {s : StateId} (h : net.Extends net') (hs : s < net.states.size) : s < net'.states.size :=
  Nat.lt_of_lt_of_le hs h.size_le

/-- A state is added behind those that are there. -/
theorem extends_addState (net : Network σ τ) (rule : RuleId) (kind : StateKind) :
    net.Extends (net.addState rule kind).2 ∧ net.states.size < (net.addState rule kind).2.states.size := by
  refine ⟨⟨?_, fun h => ?_, rfl⟩, ?_⟩
  · rw [size_states_addState]
    exact Nat.le_succ _
  · rwa [transitions_addState]
  · rw [size_states_addState]
    exact Nat.lt_succ_self _

/-- A transition is there once it is added. -/
theorem extends_addTransition {s : StateId} (hs : s < net.states.size) (t : Transition σ τ) :
    net.Extends (net.addTransition s t) ∧ t ∈ (net.addTransition s t).transitions s := by
  refine ⟨⟨?_, fun h => ?_, rfl⟩, ?_⟩
  · exact Nat.le_of_eq (size_states_addTransition net s t).symm
  · exact (mem_transitions_addTransition hs).2 (Or.inl h)
  · exact (mem_transitions_addTransition hs).2 (Or.inr ⟨rfl, rfl⟩)

theorem layOutRule_eq {rule : RuleId} {info : Rule} (p : ResolvedPattern σ τ) (h : net.rules[rule]? = some info) :
    net.layOutRule rule p =
      (layOut rule p info.start net).2.addTransition (layOut rule p info.start net).1 (.epsilon info.stop) := by
  unfold layOutRule
  rw [h]

/-! ### Declared rules -/

/-- Rules are declared and have no bodies yet: rule `i` starts at the state `2 * i` and stops at the next one, where it
is left. -/
structure Declares (net : Network σ τ) (names : List String) : Prop where
  size_states : net.states.size = 2 * names.length
  rules : ∀ i : Nat, net.rules[i]? = names[i]?.map fun name => (⟨name, 2 * i, 2 * i + 1⟩ : Rule)
  owner? : ∀ s : Nat, s < 2 * names.length → net.owner? s = some (s / 2)
  mem_transitions : ∀ (s : Nat) t, t ∈ net.transitions s ↔ s < 2 * names.length ∧ s % 2 = 1 ∧ t = .leave

theorem Declares.size_rules {names : List String} (h : net.Declares names) :
    net.rules.size = names.length := by
  have hle : ∀ i, net.rules.size ≤ i ↔ names.length ≤ i := by
    intro i
    rw [← Array.getElem?_eq_none_iff, h.rules, Option.map_eq_none_iff, List.getElem?_eq_none_iff]
  have h₁ := (hle names.length).2 (Nat.le_refl _)
  have h₂ := (hle net.rules.size).1 (Nat.le_refl _)
  omega

private theorem addRule_eq (net : Network σ τ) (name : String) :
    (net.addRule name).2 =
      { ((net.addState net.rules.size .ruleStart).2.addState net.rules.size .ruleStop).2.addTransition
          (net.states.size + 1) .leave with
        rules := net.rules.push ⟨name, net.states.size, net.states.size + 1⟩ } := by
  simp [addRule, addState, addTransition]

private theorem Declares.addRule {names : List String} (h : net.Declares names) (name : String) :
    (net.addRule name).2.Declares (names ++ [name]) := by
  have hr := h.size_rules
  have hs := h.size_states
  have hn : (names ++ [name]).length = names.length + 1 := by simp
  rw [addRule_eq]
  refine ⟨?_, ?_, ?_, ?_⟩
  · rw [size_states_addTransition, size_states_addState, size_states_addState]
    omega
  · intro i
    rw [Array.getElem?_push, h.rules, hr, hs]
    by_cases hi : i = names.length
    · subst hi
      rw [if_pos rfl, List.getElem?_concat_length]
      rfl
    · rw [if_neg hi]
      by_cases hlt : i < names.length
      · rw [List.getElem?_append_left hlt]
      · rw [List.getElem?_eq_none (by omega), List.getElem?_eq_none (by omega)]
  · intro s hlt
    show (Network.addTransition _ _ _).owner? s = _
    rw [owner?_addTransition, owner?_addState, owner?_addState, size_states_addState, hr, hs]
    by_cases hstop : s = 2 * names.length + 1
    · rw [if_pos hstop]
      exact congrArg some (show names.length = s / 2 by omega)
    · rw [if_neg hstop]
      by_cases hstart : s = 2 * names.length
      · rw [if_pos hstart]
        exact congrArg some (show names.length = s / 2 by omega)
      · rw [if_neg hstart]
        exact h.owner? s (by omega)
  · intro s t
    show t ∈ (Network.addTransition _ _ _).transitions s ↔ _
    rw [mem_transitions_addTransition (by simp), transitions_addState, transitions_addState, h.mem_transitions, hn, hs]
    constructor
    · rintro (⟨hlt, hodd, ht⟩ | ⟨rfl, ht⟩)
      · exact ⟨by omega, hodd, ht⟩
      · exact ⟨by omega, by omega, ht⟩
    · rintro ⟨hlt, hodd, ht⟩
      by_cases he : s = 2 * names.length + 1
      · exact Or.inr ⟨he, ht⟩
      · exact Or.inl ⟨by omega, hodd, ht⟩

/-- The states of declared rules. -/
theorem declares_declareRules (names : List String) :
    (Declarations.declareRules names : Network σ τ).Declares names := by
  induction names using List.reverseRecOn with
  | nil =>
    refine ⟨rfl, ?_, ?_, ?_⟩
    · simp [Declarations.declareRules, empty]
    · simp
    · simp [Declarations.declareRules, empty, transitions]
  | append_singleton names name ih =>
    unfold Declarations.declareRules
    rw [List.foldl_append]
    exact ih.addRule name

end Typeahead.Network
