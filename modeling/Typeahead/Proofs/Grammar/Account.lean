import Typeahead.Proofs.Grammar.Language
import Typeahead.Proofs.Network.Building

/-!
# What remains at a state

A network does no more than its rules allow because each of its states has an account: the form that still has to be
matched before the rule of the state is left.  Every transition is justified by leftmost expansions of that form
(`Justifies`).  Laying out a pattern extends the account to the new states, and what remains at the exit is what stood
behind the pattern at the entry (`Account.exists_layOut`).
-/

namespace Typeahead.Network

open RuleSystem

variable {σ τ : Type}

/-- The remaining forms justify a transition, which stays within the rule of its source. -/
def Justifies (G : RuleSystem (Label σ τ) RuleId σ) (net : Network σ τ) (rest : StateId → Form (Label σ τ) RuleId)
    (source : StateId) : Transition σ τ → Prop
  | .epsilon target => net.owner? target = net.owner? source ∧ G.Yields (rest source) [] (rest target)
  | .consume label target =>
    net.owner? target = net.owner? source ∧ G.Yields (rest source) [] (.atom label :: rest target)
  | .call rule follow =>
    net.owner? follow = net.owner? source ∧ G.Yields (rest source) [] (.ref rule :: rest follow)
  | .leave => G.Yields (rest source) [] []

/-- What remains at each state of a network justifies all of its transitions. -/
structure Account (G : RuleSystem (Label σ τ) RuleId σ) (net : Network σ τ) where
  rest : StateId → Form (Label σ τ) RuleId
  justifies : ∀ {s t}, t ∈ net.transitions s → net.Justifies G rest s t

variable {G : RuleSystem (Label σ τ) RuleId σ} {net net' net'' : Network σ τ}

/-- A justification looks at states of the network only. -/
private theorem Justifies.congr {rest rest' : StateId → Form (Label σ τ) RuleId} {s : StateId} {t : Transition σ τ}
    (h : net.Justifies G rest s t) (hs : s < net.states.size)
    (howner : ∀ u < net.states.size, net'.owner? u = net.owner? u)
    (hrest : ∀ u < net.states.size, rest' u = rest u) : net'.Justifies G rest' s t := by
  obtain ⟨rule, hr⟩ := exists_owner? hs
  have hlt : ∀ {u}, net.owner? u = net.owner? s → u < net.states.size :=
    fun hu => lt_size_of_owner? (hu.trans hr)
  cases t with
  | leave =>
    simp only [Justifies] at h ⊢
    rwa [hrest s hs]
  | _ =>
    simp only [Justifies] at h ⊢
    obtain ⟨ho, hy⟩ := h
    rw [howner s hs, howner _ (hlt ho), hrest s hs, hrest _ (hlt ho)]
    exact ⟨ho, hy⟩

namespace Account

/-- The later account agrees with the earlier one. -/
def Grows (A : Account G net) (B : Account G net') : Prop :=
  net.states.size ≤ net'.states.size ∧
    ∀ s < net.states.size, B.rest s = A.rest s ∧ net'.owner? s = net.owner? s

/-- Exactly the form remains at a state of the rule. -/
def Stands (A : Account G net) (rule : RuleId) (s : StateId) (F : Form (Label σ τ) RuleId) : Prop :=
  net.owner? s = some rule ∧ A.rest s = F

/-- What remains at a state of the rule can become the form. -/
def Leads (A : Account G net) (rule : RuleId) (s : StateId) (F : Form (Label σ τ) RuleId) : Prop :=
  net.owner? s = some rule ∧ G.Yields (A.rest s) [] F

variable {A : Account G net} {B : Account G net'} {C : Account G net''} {rule : RuleId} {s t : StateId}
  {F F' : Form (Label σ τ) RuleId}

theorem Grows.refl (A : Account G net) : A.Grows A := ⟨Nat.le_refl _, fun _ _ => ⟨rfl, rfl⟩⟩

theorem Grows.trans (h : A.Grows B) (h' : B.Grows C) : A.Grows C := by
  refine ⟨Nat.le_trans h.1 h'.1, fun s hs => ?_⟩
  obtain ⟨hr, ho⟩ := h.2 s hs
  obtain ⟨hr', ho'⟩ := h'.2 s (Nat.lt_of_lt_of_le hs h.1)
  exact ⟨hr'.trans hr, ho'.trans ho⟩

theorem Stands.grow (h : A.Stands rule s F) (hg : A.Grows B) : B.Stands rule s F := by
  obtain ⟨hr, ho⟩ := hg.2 s (lt_size_of_owner? h.1)
  exact ⟨ho.trans h.1, hr.trans h.2⟩

theorem Leads.grow (h : A.Leads rule s F) (hg : A.Grows B) : B.Leads rule s F := by
  obtain ⟨hr, ho⟩ := hg.2 s (lt_size_of_owner? h.1)
  refine ⟨ho.trans h.1, ?_⟩
  rw [hr]
  exact h.2

theorem Stands.leads (h : A.Stands rule s F) : A.Leads rule s F := by
  refine ⟨h.1, ?_⟩
  rw [h.2]
  exact .refl F

theorem Leads.yields (h : A.Leads rule s F) (hy : G.Yields F [] F') : A.Leads rule s F' :=
  ⟨h.1, h.2.trans hy⟩

theorem Leads.expand {p : Pattern (Label σ τ) RuleId} {E : Form (Label σ τ) RuleId} (h : A.Leads rule s (p :: F))
    (he : G.Expands p E) : A.Leads rule s (E ++ F) :=
  h.yields (.expand he (.refl _))

/-- Any form can be made to remain at a new state. -/
theorem exists_addState (A : Account G net) (rule : RuleId) (kind : StateKind) (F : Form (Label σ τ) RuleId) :
    ∃ B : Account G (net.addState rule kind).2, A.Grows B ∧ B.Stands rule net.states.size F := by
  have howner : ∀ u < net.states.size, (net.addState rule kind).2.owner? u = net.owner? u := by
    intro u hu
    rw [owner?_addState, if_neg (Nat.ne_of_lt hu)]
  have hrest : ∀ u < net.states.size, Function.update A.rest net.states.size F u = A.rest u := by
    intro u hu
    exact Function.update_of_ne (Nat.ne_of_lt hu) F A.rest
  refine ⟨⟨Function.update A.rest net.states.size F, ?_⟩, ⟨?_, fun s hs => ⟨hrest s hs, howner s hs⟩⟩, ?_, ?_⟩
  · intro s t ht
    rw [transitions_addState] at ht
    exact (A.justifies ht).congr (lt_size_of_mem_transitions ht) howner hrest
  · rw [size_states_addState]
    exact Nat.le_succ _
  · rw [owner?_addState, if_pos rfl]
  · exact Function.update_self ..

/-- A justified transition can be added. -/
private theorem exists_addTransition (A : Account G net) {t : Transition σ τ} (hs : s < net.states.size)
    (ht : net.Justifies G A.rest s t) : ∃ B : Account G (net.addTransition s t), A.Grows B := by
  refine ⟨⟨A.rest, ?_⟩, ?_, ?_⟩
  · intro u t' ht'
    have hu : u < net.states.size := by simpa using lt_size_of_mem_transitions ht'
    have hj : net.Justifies G A.rest u t' := by
      rcases (mem_transitions_addTransition hs).1 ht' with ht' | ⟨rfl, rfl⟩
      · exact A.justifies ht'
      · exact ht
    exact hj.congr hu (fun _ _ => owner?_addTransition ..) (fun _ _ => rfl)
  · exact Nat.le_of_eq (size_states_addTransition net s t).symm
  · exact fun u _ => ⟨rfl, owner?_addTransition ..⟩

theorem Leads.exists_epsilon (h : A.Leads rule s F) (ht : A.Stands rule t F) :
    ∃ B : Account G (net.addTransition s (.epsilon t)), A.Grows B := by
  refine A.exists_addTransition (lt_size_of_owner? h.1) ⟨ht.1.trans h.1.symm, ?_⟩
  rw [ht.2]
  exact h.2

theorem Leads.exists_consume {label : Label σ τ} (h : A.Leads rule s (.atom label :: F)) (ht : A.Stands rule t F) :
    ∃ B : Account G (net.addTransition s (.consume label t)), A.Grows B := by
  refine A.exists_addTransition (lt_size_of_owner? h.1) ⟨ht.1.trans h.1.symm, ?_⟩
  rw [ht.2]
  exact h.2

theorem Leads.exists_call {callee : RuleId} (h : A.Leads rule s (.ref callee :: F)) (ht : A.Stands rule t F) :
    ∃ B : Account G (net.addTransition s (.call callee t)), A.Grows B := by
  refine A.exists_addTransition (lt_size_of_owner? h.1) ⟨ht.1.trans h.1.symm, ?_⟩
  rw [ht.2]
  exact h.2

/-! ### Laying out patterns -/

mutual

/-- A pattern laid out where it comes next leaves what stands behind it. -/
theorem exists_layOut (rule : RuleId) (p : ResolvedPattern σ τ) {net : Network σ τ} {A : Account G net}
    {entry : StateId} {K : Form (Label σ τ) RuleId} (h : A.Leads rule entry (p :: K)) :
    ∃ B : Account G (layOut rule p entry net).2, A.Grows B ∧ B.Leads rule (layOut rule p entry net).1 K := by
  match p with
  | .empty => exact ⟨A, .refl A, h.expand .empty⟩
  | .atom label =>
    obtain ⟨B, hB, htarget⟩ := A.exists_addState rule .basic K
    obtain ⟨C, hC⟩ := (h.grow hB).exists_consume htarget
    exact ⟨C, hB.trans hC, (htarget.grow hC).leads⟩
  | .ref callee =>
    obtain ⟨B, hB, hfollow⟩ := A.exists_addState rule .basic K
    obtain ⟨C, hC⟩ := (h.grow hB).exists_call hfollow
    exact ⟨C, hB.trans hC, (hfollow.grow hC).leads⟩
  | .seq ps => exact exists_layOutSequence rule ps (h.expand .seq)
  | .alt ps =>
    -- at the decision the alternation itself remains, so that each alternative can come next
    obtain ⟨B, hB, hdecision⟩ := A.exists_addState rule .decision (.alt ps :: K)
    obtain ⟨C, hC⟩ := (h.grow hB).exists_epsilon hdecision
    obtain ⟨D, hD, hexit⟩ := C.exists_addState rule .basic K
    have hbranches : ∀ p ∈ ps, D.Leads rule net.states.size (p :: K) := fun p hp =>
      (hdecision.grow (hC.trans hD)).leads.expand (.alt hp)
    obtain ⟨E, hE⟩ := exists_layOutAlternatives rule ps hbranches hexit
    exact ⟨E, hB.trans (hC.trans (hD.trans hE)), (hexit.grow hE).leads⟩
  | .optional p =>
    obtain ⟨B, hB, hdecision⟩ := A.exists_addState rule .decision (.optional p :: K)
    obtain ⟨C, hC⟩ := (h.grow hB).exists_epsilon hdecision
    obtain ⟨D, hD, hinside⟩ := C.exists_addState rule .basic (p :: K)
    obtain ⟨E, hE, hexit⟩ := D.exists_addState rule .basic K
    have hdecision := hdecision.grow (hC.trans (hD.trans hE))
    obtain ⟨F, hF⟩ := (hdecision.leads.expand .take).exists_epsilon (hinside.grow hE)
    obtain ⟨H, hH⟩ := ((hdecision.grow hF).leads.expand .skip).exists_epsilon (hexit.grow hF)
    obtain ⟨I, hI, hlast⟩ := exists_layOut rule p (hinside.grow (hE.trans (hF.trans hH))).leads
    obtain ⟨J, hJ⟩ := hlast.exists_epsilon (hexit.grow (hF.trans (hH.trans hI)))
    have hg : E.Grows J := hF.trans (hH.trans (hI.trans hJ))
    exact ⟨J, hB.trans (hC.trans (hD.trans (hE.trans hg))), (hexit.grow hg).leads⟩
  | .many p =>
    -- behind the body the repetition remains, as at the head of the loop, which closes the circle
    obtain ⟨B, hB, hhead⟩ := A.exists_addState rule .loop (.many p :: K)
    obtain ⟨C, hC⟩ := (h.grow hB).exists_epsilon hhead
    obtain ⟨D, hD, hinside⟩ := C.exists_addState rule .basic (p :: .many p :: K)
    obtain ⟨E, hE, hexit⟩ := D.exists_addState rule .basic K
    have hhead := hhead.grow (hC.trans (hD.trans hE))
    obtain ⟨F, hF⟩ := (hhead.leads.expand .again).exists_epsilon (hinside.grow hE)
    obtain ⟨H, hH⟩ := ((hhead.grow hF).leads.expand .stop).exists_epsilon (hexit.grow hF)
    obtain ⟨I, hI, hlast⟩ := exists_layOut rule p (hinside.grow (hE.trans (hF.trans hH))).leads
    obtain ⟨J, hJ⟩ := hlast.exists_epsilon (hhead.grow (hF.trans (hH.trans hI)))
    have hg : E.Grows J := hF.trans (hH.trans (hI.trans hJ))
    exact ⟨J, hB.trans (hC.trans (hD.trans (hE.trans hg))), (hexit.grow hg).leads⟩
  | .many1 p =>
    -- here the head is where a round begins, and the choice to stop lies behind the body
    obtain ⟨B, hB, hhead⟩ := A.exists_addState rule .loop (p :: .many p :: K)
    obtain ⟨C, hC⟩ := (h.expand .many1 |>.grow hB).exists_epsilon hhead
    obtain ⟨D, hD, hexit⟩ := C.exists_addState rule .basic K
    obtain ⟨E, hE, hlast⟩ := exists_layOut rule p (hhead.grow (hC.trans hD)).leads
    obtain ⟨F, hF⟩ := (hlast.expand .again).exists_epsilon (hhead.grow (hC.trans (hD.trans hE)))
    obtain ⟨H, hH⟩ := ((hlast.grow hF).expand .stop).exists_epsilon (hexit.grow (hE.trans hF))
    have hg : D.Grows H := hE.trans (hF.trans hH)
    exact ⟨H, hB.trans (hC.trans (hD.trans hg)), (hexit.grow hg).leads⟩

theorem exists_layOutSequence (rule : RuleId) (ps : List (ResolvedPattern σ τ)) {net : Network σ τ}
    {A : Account G net} {entry : StateId} {K : Form (Label σ τ) RuleId} (h : A.Leads rule entry (ps ++ K)) :
    ∃ B : Account G (layOutSequence rule ps entry net).2, A.Grows B ∧
      B.Leads rule (layOutSequence rule ps entry net).1 K := by
  match ps with
  | [] => exact ⟨A, .refl A, h⟩
  | p :: ps =>
    obtain ⟨B, hB, hnext⟩ := exists_layOut rule p h
    obtain ⟨C, hC, hlast⟩ := exists_layOutSequence rule ps hnext
    exact ⟨C, hB.trans hC, hlast⟩

theorem exists_layOutAlternatives (rule : RuleId) (ps : List (ResolvedPattern σ τ)) {net : Network σ τ}
    {A : Account G net} {decision exit : StateId} {K : Form (Label σ τ) RuleId}
    (h : ∀ p ∈ ps, A.Leads rule decision (p :: K)) (hexit : A.Stands rule exit K) :
    ∃ B : Account G (layOutAlternatives rule ps decision exit net), A.Grows B := by
  match ps with
  | [] => exact ⟨A, .refl A⟩
  | p :: ps =>
    obtain ⟨B, hB, hbranch⟩ := A.exists_addState rule .basic (p :: K)
    obtain ⟨C, hC⟩ := ((h p (List.mem_cons_self ..)).grow hB).exists_epsilon hbranch
    obtain ⟨D, hD, hlast⟩ := exists_layOut rule p (hbranch.grow hC).leads
    obtain ⟨E, hE⟩ := hlast.exists_epsilon (hexit.grow (hB.trans (hC.trans hD)))
    have hg : A.Grows E := hB.trans (hC.trans (hD.trans hE))
    obtain ⟨F, hF⟩ := exists_layOutAlternatives rule ps
      (fun q hq => (h q (List.mem_cons_of_mem _ hq)).grow hg) (hexit.grow hg)
    exact ⟨F, hg.trans hF⟩

end

/-- A body laid out between the end points of its rule keeps the account. -/
theorem exists_layOutRule {info : Rule} {p : ResolvedPattern σ τ} (h : net.rules[rule]? = some info)
    (hstart : A.Stands rule info.start [p]) (hstop : A.Stands rule info.stop []) :
    ∃ B : Account G (net.layOutRule rule p), A.Grows B := by
  rw [layOutRule_eq p h]
  obtain ⟨B, hB, hlast⟩ := exists_layOut rule p hstart.leads
  obtain ⟨C, hC⟩ := hlast.exists_epsilon (hstop.grow hB)
  exact ⟨C, hB.trans hC⟩

end Account

end Typeahead.Network
