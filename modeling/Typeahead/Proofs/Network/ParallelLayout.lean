import Typeahead.Proofs.Network.Additions
import Typeahead.Proofs.Network.Renumbering

/-!
# Laying out a pattern twice

A pattern that is laid out in two networks adds the same states to both, in the same order, only behind different
numbers of states that are there already.  So a correspondence between the old states of the two networks is continued
by their new states, one by one, and corresponding states keep corresponding transitions (`Twins.layOut`).  References
may be renumbered on the way (`Pattern.mapRefs`).
-/

namespace Typeahead

/-! ### Patterns with other references -/

namespace Pattern

variable {α ρ κ : Type}

mutual

/-- The pattern with its references replaced. -/
def mapRefs (f : ρ → κ) : Pattern α ρ → Pattern α κ
  | .empty => .empty
  | .atom a => .atom a
  | .ref r => .ref (f r)
  | .seq items => .seq (mapRefsAll f items)
  | .alt items => .alt (mapRefsAll f items)
  | .optional body => .optional (mapRefs f body)
  | .many body => .many (mapRefs f body)
  | .many1 body => .many1 (mapRefs f body)

/-- The patterns of a list with their references replaced. -/
def mapRefsAll (f : ρ → κ) : List (Pattern α ρ) → List (Pattern α κ)
  | [] => []
  | p :: ps => mapRefs f p :: mapRefsAll f ps

end

theorem mapRefsAll_eq_map (f : ρ → κ) (ps : List (Pattern α ρ)) : mapRefsAll f ps = ps.map (mapRefs f) := by
  induction ps with
  | nil => rfl
  | cons p ps ih => rw [mapRefsAll, ih, List.map_cons]

end Pattern

/-! ### Corresponding additions -/

namespace Network

variable {σ τ : Type} {f : RuleId → RuleId} {S : StateId → StateId → Prop} {net net' : Network σ τ}
  {s s' : StateId}

theorem transitions_addTransition (net : Network σ τ) (source : StateId) (t : Transition σ τ) (s : StateId) :
    (net.addTransition source t).transitions s =
      if s = source ∧ s < net.states.size then net.transitions s ++ [t] else net.transitions s := by
  by_cases hs : s = source
  · subst hs
    unfold transitions addTransition
    rw [Array.getElem?_modify, if_pos rfl]
    by_cases hlt : s < net.states.size
    · rw [if_pos ⟨rfl, hlt⟩, Array.getElem?_eq_getElem hlt]
      rfl
    · rw [if_neg (fun h => hlt h.2), Array.getElem?_eq_none (Nat.le_of_not_lt hlt)]
      rfl
  · rw [transitions_addTransition_of_ne hs, if_neg (fun h => hs h.1)]

/-- Corresponding states have corresponding transitions, and the states that are added next will correspond. -/
structure Twins (f : RuleId → RuleId) (S : StateId → StateId → Prop) (net net' : Network σ τ) : Prop where
  biUnique : Relator.BiUnique S
  lt_iff : ∀ {s s'}, S s s' → (s < net.states.size ↔ s' < net'.states.size)
  next : ∀ k, S (net.states.size + k) (net'.states.size + k)
  transitions : ∀ {s s'}, S s s' → List.Forall₂ (Transition.Matches f S) (net.transitions s) (net'.transitions s')

/-- The states that are added next correspond. -/
theorem Twins.size (h : net.Twins f S net') : S net.states.size net'.states.size := h.next 0

theorem Twins.addState (h : net.Twins f S net') (rule rule' : RuleId) (kind : StateKind) :
    (net.addState rule kind).2.Twins f S (net'.addState rule' kind).2 := by
  refine ⟨h.biUnique, fun {s s'} hs => ?_, fun k => ?_, fun hs => ?_⟩
  · have heq : s = net.states.size ↔ s' = net'.states.size := Relator.rel_eq h.biUnique hs h.size
    rw [size_states_addState, size_states_addState, Nat.lt_succ_iff_lt_or_eq, Nat.lt_succ_iff_lt_or_eq, h.lt_iff hs,
      heq]
  · rw [size_states_addState, size_states_addState, Nat.add_right_comm, Nat.add_right_comm _ 1]
    exact h.next (k + 1)
  · rw [transitions_addState, transitions_addState]
    exact h.transitions hs

theorem Twins.addTransition (h : net.Twins f S net') (hs : S s s') {t t' : Transition σ τ} (ht : t.Matches f S t') :
    (net.addTransition s t).Twins f S (net'.addTransition s' t') := by
  refine ⟨h.biUnique, fun hu => ?_, fun k => ?_, fun {u u'} hu => ?_⟩
  · rw [size_states_addTransition, size_states_addTransition]
    exact h.lt_iff hu
  · rw [size_states_addTransition, size_states_addTransition]
    exact h.next k
  · have heq : u = s ↔ u' = s' := Relator.rel_eq h.biUnique hu hs
    simp only [transitions_addTransition, heq, h.lt_iff hu]
    split
    · exact List.rel_append (h.transitions hu) (.cons ht .nil)
    · exact h.transitions hu

/-! ### Corresponding layouts -/

mutual

/-- A pattern is laid out in corresponding states from corresponding entries. -/
theorem Twins.layOut {net net' : Network σ τ} (h : net.Twins f S net') (rule rule' : RuleId) (p : ResolvedPattern σ τ)
    {entry entry' : StateId} (he : S entry entry') :
    (Network.layOut rule p entry net).2.Twins f S (Network.layOut rule' (p.mapRefs f) entry' net').2 ∧
      S (Network.layOut rule p entry net).1 (Network.layOut rule' (p.mapRefs f) entry' net').1 := by
  match p with
  | .empty => exact ⟨h, he⟩
  | .atom label => exact ⟨(h.addState rule rule' .basic).addTransition he (.consume label h.size), h.size⟩
  | .ref callee => exact ⟨(h.addState rule rule' .basic).addTransition he (.call callee h.size), h.size⟩
  | .seq ps => exact h.layOutSequence rule rule' ps he
  | .alt ps =>
    have h₁ := (h.addState rule rule' .decision).addTransition he (.epsilon h.size)
    have h₂ := (h₁.addState rule rule' .basic).layOutAlternatives rule rule' ps h.size h₁.size
    simp only [Network.layOut, Pattern.mapRefs, fst_addState]
    exact ⟨h₂, h₁.size⟩
  | .optional p =>
    have h₁ := (h.addState rule rule' .decision).addTransition he (.epsilon h.size)
    have h₂ := h₁.addState rule rule' .basic
    have h₃ := (h₂.addState rule rule' .basic).addTransition h.size (.epsilon h₁.size)
    obtain ⟨h₄, hlast⟩ := (h₃.addTransition h.size (.epsilon h₂.size)).layOut rule rule' p h₁.size
    have h₅ := h₄.addTransition hlast (.epsilon h₂.size)
    simp only [Network.layOut, Pattern.mapRefs, fst_addState]
    exact ⟨h₅, h₂.size⟩
  | .many p =>
    have h₁ := (h.addState rule rule' .loop).addTransition he (.epsilon h.size)
    have h₂ := h₁.addState rule rule' .basic
    have h₃ := (h₂.addState rule rule' .basic).addTransition h.size (.epsilon h₁.size)
    obtain ⟨h₄, hlast⟩ := (h₃.addTransition h.size (.epsilon h₂.size)).layOut rule rule' p h₁.size
    have h₅ := h₄.addTransition hlast (.epsilon h.size)
    simp only [Network.layOut, Pattern.mapRefs, fst_addState]
    exact ⟨h₅, h₂.size⟩
  | .many1 p =>
    have h₁ := (h.addState rule rule' .loop).addTransition he (.epsilon h.size)
    obtain ⟨h₂, hlast⟩ := (h₁.addState rule rule' .basic).layOut rule rule' p h.size
    have h₃ := (h₂.addTransition hlast (.epsilon h.size)).addTransition hlast (.epsilon h₁.size)
    simp only [Network.layOut, Pattern.mapRefs, fst_addState]
    exact ⟨h₃, h₁.size⟩

theorem Twins.layOutSequence {net net' : Network σ τ} (h : net.Twins f S net') (rule rule' : RuleId)
    (ps : List (ResolvedPattern σ τ)) {entry entry' : StateId} (he : S entry entry') :
    (Network.layOutSequence rule ps entry net).2.Twins f S
        (Network.layOutSequence rule' (Pattern.mapRefsAll f ps) entry' net').2 ∧
      S (Network.layOutSequence rule ps entry net).1
        (Network.layOutSequence rule' (Pattern.mapRefsAll f ps) entry' net').1 := by
  match ps with
  | [] => exact ⟨h, he⟩
  | p :: ps =>
    obtain ⟨h₁, hnext⟩ := h.layOut rule rule' p he
    exact h₁.layOutSequence rule rule' ps hnext

theorem Twins.layOutAlternatives {net net' : Network σ τ} (h : net.Twins f S net') (rule rule' : RuleId)
    (ps : List (ResolvedPattern σ τ)) {decision decision' exit exit' : StateId} (hd : S decision decision')
    (he : S exit exit') :
    (Network.layOutAlternatives rule ps decision exit net).Twins f S
      (Network.layOutAlternatives rule' (Pattern.mapRefsAll f ps) decision' exit' net') := by
  match ps with
  | [] => exact h
  | p :: ps =>
    have h₁ := (h.addState rule rule' .basic).addTransition hd (.epsilon h.size)
    obtain ⟨h₂, hlast⟩ := h₁.layOut rule rule' p h.size
    simp only [Network.layOutAlternatives, Pattern.mapRefsAll, fst_addState]
    exact (h₂.addTransition hlast (.epsilon he)).layOutAlternatives rule rule' ps hd he

end

end Network

end Typeahead
