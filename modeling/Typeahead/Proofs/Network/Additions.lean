import Typeahead.Proofs.Grammar.Resolution
import Typeahead.Proofs.Grammar.Spans

/-!
# Where patterns are laid out

Laying out a pattern adds states of its rule, and transitions from the entry and from these states to these states; what
else the network holds plays no part.  `KeptWithin.layOut` says so for a relation between two networks that each such
addition to both of them keeps.
-/

namespace Typeahead

/-- Where a transition goes on within its rule. -/
def Transition.next? {σ τ : Type} : Transition σ τ → Option StateId
  | epsilon target => some target
  | consume _ target => some target
  | call _ follow => some follow
  | leave => none

/-- The label or the called rule of a transition satisfies the predicates. -/
def Transition.All {σ τ : Type} (A : Label σ τ → Prop) (B : RuleId → Prop) : Transition σ τ → Prop
  | consume label _ => A label
  | call rule _ => B rule
  | _ => True

namespace Network

variable {σ τ : Type}

@[simp] theorem fst_addState (net : Network σ τ) (rule : RuleId) (kind : StateKind) :
    (net.addState rule kind).1 = net.states.size := rfl

/-- The relation is kept when the same is added to both networks: a state of the rule, or a transition that leaves
`entry` or a state from `old` on and leads to a state from `old` on.  Labels satisfy `A`, and called rules `B`. -/
structure KeptWithin (A : Label σ τ → Prop) (B : RuleId → Prop) (R : Network σ τ → Network σ τ → Prop) (rule : RuleId)
    (entry old : StateId) : Prop where
  size_eq : ∀ {a b}, R a b → b.states.size = a.states.size
  le_size : ∀ {a b}, R a b → old ≤ a.states.size
  addState : ∀ {a b} (kind : StateKind), R a b → R (a.addState rule kind).2 (b.addState rule kind).2
  addTransition : ∀ {a b s u} (t : Transition σ τ), R a b → s = entry ∨ old ≤ s → s < a.states.size →
    t.next? = some u → old ≤ u → u < a.states.size → t.All A B → R (a.addTransition s t) (b.addTransition s t)

variable {A : Label σ τ → Prop} {B : RuleId → Prop} {R : Network σ τ → Network σ τ → Prop} {rule : RuleId}
  {entry old : StateId}

private theorem KeptWithin.size_layOut (_ : KeptWithin A B R rule entry old) (p : ResolvedPattern σ τ)
    {a b : Network σ τ} (_ : R a b) {s : StateId} (hlt : s < a.states.size) :
    a.states.size ≤ (layOut rule p s a).2.states.size ∧ (layOut rule p s a).1 < (layOut rule p s a).2.states.size := by
  obtain ⟨he, hexit, -⟩ := layOut_spans rule p hlt
  exact ⟨he.size_le, hexit⟩

mutual

/-- A pattern is laid out in the same way in both networks. -/
theorem KeptWithin.layOut (K : KeptWithin A B R rule entry old) (p : ResolvedPattern σ τ) (hp : p.All A B)
    {a b : Network σ τ} {s : StateId} (h : R a b) (hs : s = entry ∨ old ≤ s) (hlt : s < a.states.size) :
    R (layOut rule p s a).2 (layOut rule p s b).2 ∧ (layOut rule p s b).1 = (layOut rule p s a).1 ∧
      ((layOut rule p s a).1 = entry ∨ old ≤ (layOut rule p s a).1) := by
  have hsize := K.size_eq h
  have hold := K.le_size h
  match p with
  | .empty => exact ⟨h, rfl, hs⟩
  | .atom label =>
    have h₁ := K.addTransition (.consume label a.states.size) (K.addState .basic h) hs (by grind) rfl hold (by grind) hp
    simp only [Network.layOut, fst_addState, hsize]
    exact ⟨h₁, trivial, Or.inr hold⟩
  | .ref callee =>
    have h₁ := K.addTransition (.call callee a.states.size) (K.addState .basic h) hs (by grind) rfl hold (by grind) hp
    simp only [Network.layOut, fst_addState, hsize]
    exact ⟨h₁, trivial, Or.inr hold⟩
  | .seq ps => exact K.layOutSequence ps hp h hs hlt
  | .alt ps =>
    have h₁ := K.addTransition (.epsilon a.states.size) (K.addState .decision h) hs (by grind) rfl hold (by grind)
      trivial
    have h₂ := K.addState .basic h₁
    have hps := K.layOutAlternatives ps hp h₂ (d := a.states.size) (e := a.states.size + 1) hold (by grind) (by grind)
      (by grind)
    simp only [Network.layOut, fst_addState, size_states_addState, size_states_addTransition, hsize]
    exact ⟨hps, trivial, Or.inr (by grind)⟩
  | .optional p =>
    have h₁ := K.addTransition (.epsilon a.states.size) (K.addState .decision h) hs (by grind) rfl hold (by grind)
      trivial
    have h₂ := K.addState .basic (K.addState .basic h₁)
    have h₃ := K.addTransition (.epsilon (a.states.size + 1)) h₂ (s := a.states.size) (Or.inr hold) (by grind) rfl
      (by grind) (by grind) trivial
    have h₄ := K.addTransition (.epsilon (a.states.size + 2)) h₃ (s := a.states.size) (Or.inr hold) (by grind) rfl
      (by grind) (by grind) trivial
    obtain ⟨h₅, hlast, hin⟩ := K.layOut p hp h₄ (s := a.states.size + 1) (Or.inr (by grind)) (by grind)
    obtain ⟨hle, hlt⟩ := K.size_layOut p h₄ (s := a.states.size + 1) (by grind)
    have h₆ := K.addTransition (.epsilon (a.states.size + 2)) h₅ hin hlt rfl (by grind) (by grind) trivial
    simp only [Network.layOut, fst_addState, size_states_addState, size_states_addTransition, hsize, hlast]
    exact ⟨h₆, trivial, Or.inr (by grind)⟩
  | .many p =>
    have h₁ := K.addTransition (.epsilon a.states.size) (K.addState .loop h) hs (by grind) rfl hold (by grind) trivial
    have h₂ := K.addState .basic (K.addState .basic h₁)
    have h₃ := K.addTransition (.epsilon (a.states.size + 1)) h₂ (s := a.states.size) (Or.inr hold) (by grind) rfl
      (by grind) (by grind) trivial
    have h₄ := K.addTransition (.epsilon (a.states.size + 2)) h₃ (s := a.states.size) (Or.inr hold) (by grind) rfl
      (by grind) (by grind) trivial
    obtain ⟨h₅, hlast, hin⟩ := K.layOut p hp h₄ (s := a.states.size + 1) (Or.inr (by grind)) (by grind)
    obtain ⟨hle, hlt⟩ := K.size_layOut p h₄ (s := a.states.size + 1) (by grind)
    have h₆ := K.addTransition (.epsilon a.states.size) h₅ hin hlt rfl hold (by grind) trivial
    simp only [Network.layOut, fst_addState, size_states_addState, size_states_addTransition, hsize, hlast]
    exact ⟨h₆, trivial, Or.inr (by grind)⟩
  | .many1 p =>
    have h₁ := K.addTransition (.epsilon a.states.size) (K.addState .loop h) hs (by grind) rfl hold (by grind) trivial
    have h₂ := K.addState .basic h₁
    obtain ⟨h₃, hlast, hin⟩ := K.layOut p hp h₂ (s := a.states.size) (Or.inr hold) (by grind)
    obtain ⟨hle, hlt⟩ := K.size_layOut p h₂ (s := a.states.size) (by grind)
    have h₄ := K.addTransition (.epsilon a.states.size) h₃ hin hlt rfl hold (by grind) trivial
    have h₅ := K.addTransition (.epsilon (a.states.size + 1)) h₄ hin (by grind) rfl (by grind) (by grind) trivial
    simp only [Network.layOut, fst_addState, size_states_addState, size_states_addTransition, hsize, hlast]
    exact ⟨h₅, trivial, Or.inr (by grind)⟩

theorem KeptWithin.layOutSequence (K : KeptWithin A B R rule entry old) (ps : List (ResolvedPattern σ τ))
    (hps : Pattern.AllOf A B ps) {a b : Network σ τ} {s : StateId} (h : R a b) (hs : s = entry ∨ old ≤ s)
    (hlt : s < a.states.size) :
    R (layOutSequence rule ps s a).2 (layOutSequence rule ps s b).2 ∧
      (layOutSequence rule ps s b).1 = (layOutSequence rule ps s a).1 ∧
      ((layOutSequence rule ps s a).1 = entry ∨ old ≤ (layOutSequence rule ps s a).1) := by
  match ps with
  | [] => exact ⟨h, rfl, hs⟩
  | p :: ps =>
    obtain ⟨h₁, hnext, hin⟩ := K.layOut p hps.1 h hs hlt
    simp only [Network.layOutSequence, hnext]
    exact K.layOutSequence ps hps.2 h₁ hin (layOut_spans rule p hlt).2.1

theorem KeptWithin.layOutAlternatives (K : KeptWithin A B R rule entry old) (ps : List (ResolvedPattern σ τ))
    (hps : Pattern.AllOf A B ps) {a b : Network σ τ} {d e : StateId} (h : R a b) (hd : old ≤ d)
    (hd' : d < a.states.size) (he : old ≤ e) (he' : e < a.states.size) :
    R (layOutAlternatives rule ps d e a) (layOutAlternatives rule ps d e b) := by
  match ps with
  | [] => exact h
  | p :: ps =>
    have hsize := K.size_eq h
    have hold := K.le_size h
    have h₁ := K.addTransition (.epsilon a.states.size) (K.addState .basic h) (Or.inr hd) (by grind) rfl hold (by grind)
      trivial
    obtain ⟨h₂, hlast, hin⟩ := K.layOut p hps.1 h₁ (s := a.states.size) (Or.inr hold) (by grind)
    obtain ⟨hle, hlt⟩ := K.size_layOut p h₁ (s := a.states.size) (by grind)
    have h₃ := K.addTransition (.epsilon e) h₂ hin hlt rfl he (by grind) trivial
    simp only [Network.layOutAlternatives, fst_addState, hsize, hlast]
    exact K.layOutAlternatives ps hps.2 h₃ hd (by grind) he (by grind)

end

end Network

end Typeahead
