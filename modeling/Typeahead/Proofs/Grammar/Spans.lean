import Typeahead.Proofs.Grammar.Language
import Typeahead.Proofs.Network.Building
import Typeahead.Proofs.Network.Reachability

/-!
# Patterns in a network

A network does all that its rules allow because every pattern has been laid out between two of its states (`Spans`,
`layOut_spans`).  A configuration represents a form when the form is laid out in front of it, across the open rule
invocations (`Represents`); it then follows every leftmost expansion of the form (`Represents.exists_reads`).
-/

namespace Typeahead.Network

open RuleSystem

variable {σ τ : Type}

/-- A way that consumes nothing and stays within the rule. -/
def Glued (net : Network σ τ) : StateId → StateId → Prop :=
  Relation.ReflTransGen fun s t => .epsilon t ∈ net.transitions s

/-- The pattern is laid out between the two states, up to transitions that consume nothing. -/
inductive Spans (net : Network σ τ) : ResolvedPattern σ τ → StateId → StateId → Prop where
  | empty {s t : StateId} (h : net.Glued s t) : Spans net .empty s t
  | atom {s a b t : StateId} {label : Label σ τ} (hs : net.Glued s a) (h : .consume label b ∈ net.transitions a)
    (ht : net.Glued b t) : Spans net (.atom label) s t
  | ref {s a b t : StateId} {rule : RuleId} (hs : net.Glued s a) (h : .call rule b ∈ net.transitions a)
    (ht : net.Glued b t) : Spans net (.ref rule) s t
  | nil {s t : StateId} (h : net.Glued s t) : Spans net (.seq []) s t
  | cons {s m t : StateId} {p : ResolvedPattern σ τ} {ps : List (ResolvedPattern σ τ)} (h : Spans net p s m)
    (hs : Spans net (.seq ps) m t) : Spans net (.seq (p :: ps)) s t
  | alt {s t : StateId} {ps : List (ResolvedPattern σ τ)} (h : ∀ p ∈ ps, Spans net p s t) : Spans net (.alt ps) s t
  | optional {s t : StateId} {p : ResolvedPattern σ τ} (hs : net.Glued s t) (h : Spans net p s t) :
    Spans net (.optional p) s t
  | many {s m t : StateId} {p : ResolvedPattern σ τ} (hs : net.Glued s m) (h : Spans net p m m)
    (ht : net.Glued m t) : Spans net (.many p) s t
  | many1 {s m t : StateId} {p : ResolvedPattern σ τ} (hs : Spans net p s m) (h : Spans net p m m)
    (ht : net.Glued m t) : Spans net (.many1 p) s t

variable {net net' : Network σ τ} {s s' t t' : StateId} {p : ResolvedPattern σ τ}

theorem Glued.mono (h : net.Glued s t) (he : net.Extends net') : net'.Glued s t :=
  h.lift id fun _ _ => he.mem_transitions

theorem Spans.mono (h : net.Spans p s t) (he : net.Extends net') : net'.Spans p s t := by
  induction h with
  | empty h => exact .empty (h.mono he)
  | atom hs h ht => exact .atom (hs.mono he) (he.mem_transitions h) (ht.mono he)
  | ref hs h ht => exact .ref (hs.mono he) (he.mem_transitions h) (ht.mono he)
  | nil h => exact .nil (h.mono he)
  | cons _ _ ih ihs => exact .cons ih ihs
  | alt _ ih => exact .alt ih
  | optional hs _ ih => exact .optional (hs.mono he) ih
  | many hs _ ht ih => exact .many (hs.mono he) ih (ht.mono he)
  | many1 _ _ ht ihs ih => exact .many1 ihs ih (ht.mono he)

/-- What is laid out from a state is laid out from each state that is glued in front of it. -/
theorem Spans.glue_left (hg : net.Glued s' s) (h : net.Spans p s t) : net.Spans p s' t := by
  induction h with
  | empty h => exact .empty (hg.trans h)
  | atom hs h ht => exact .atom (hg.trans hs) h ht
  | ref hs h ht => exact .ref (hg.trans hs) h ht
  | nil h => exact .nil (hg.trans h)
  | cons _ hs ih _ => exact .cons (ih hg) hs
  | alt _ ih => exact .alt fun p hp => ih p hp hg
  | optional hs _ ih => exact .optional (hg.trans hs) (ih hg)
  | many hs h ht => exact .many (hg.trans hs) h ht
  | many1 _ h ht ihs => exact .many1 (ihs hg) h ht

theorem Spans.glue_right (h : net.Spans p s t) (hg : net.Glued t t') : net.Spans p s t' := by
  induction h with
  | empty h => exact .empty (h.trans hg)
  | atom hs h ht => exact .atom hs h (ht.trans hg)
  | ref hs h ht => exact .ref hs h (ht.trans hg)
  | nil h => exact .nil (h.trans hg)
  | cons h _ _ ih => exact .cons h (ih hg)
  | alt _ ih => exact .alt fun p hp => ih p hp hg
  | optional hs _ ih => exact .optional (hs.trans hg) (ih hg)
  | many hs h ht => exact .many hs h (ht.trans hg)
  | many1 hs h ht => exact .many1 hs h (ht.trans hg)

/-! ### Laying out patterns -/

private theorem extends_addState_of (_ : net.Extends net') (rule : RuleId) (kind : StateKind) :
    net'.Extends (net'.addState rule kind).2 ∧ net'.states.size < (net'.addState rule kind).2.states.size :=
  extends_addState net' rule kind

/-- A transition that consumes nothing glues its ends. -/
private theorem extends_glued (hs : s < net.states.size) (_ : t < net.states.size) :
    net.Extends (net.addTransition s (.epsilon t)) ∧ (net.addTransition s (.epsilon t)).Glued s t :=
  ⟨(extends_addTransition hs _).1, .single (extends_addTransition hs _).2⟩

mutual

/-- `layOut` lays the pattern out between the entry and the exit. -/
theorem layOut_spans (rule : RuleId) (p : ResolvedPattern σ τ) {net : Network σ τ} {entry : StateId}
    (h : entry < net.states.size) :
    net.Extends (layOut rule p entry net).2 ∧
      (layOut rule p entry net).1 < (layOut rule p entry net).2.states.size ∧
      (layOut rule p entry net).2.Spans p entry (layOut rule p entry net).1 := by
  match p with
  | .empty => exact ⟨.refl net, h, .empty .refl⟩
  | .atom label =>
    obtain ⟨hB, htarget⟩ := net.extends_addState rule .basic
    obtain ⟨hC, hlabel⟩ := extends_addTransition (hB.lt_size h) (.consume label net.states.size)
    exact ⟨hB.trans hC, hC.lt_size htarget, .atom .refl hlabel .refl⟩
  | .ref callee =>
    obtain ⟨hB, hfollow⟩ := net.extends_addState rule .basic
    obtain ⟨hC, hcall⟩ := extends_addTransition (hB.lt_size h) (.call callee net.states.size)
    exact ⟨hB.trans hC, hC.lt_size hfollow, .ref .refl hcall .refl⟩
  | .seq ps => exact layOutSequence_spans rule ps h
  | .alt ps =>
    obtain ⟨hB, hdecision⟩ := net.extends_addState rule .decision
    obtain ⟨hC, hentry⟩ := extends_glued (hB.lt_size h) hdecision
    obtain ⟨hD, hexit⟩ := extends_addState_of hC rule .basic
    obtain ⟨hE, hs⟩ := layOutAlternatives_spans rule ps ((hC.trans hD).lt_size hdecision) hexit
    refine ⟨hB.trans (hC.trans (hD.trans hE)), hE.lt_size hexit, .alt fun p hp => ?_⟩
    exact (hs p hp).glue_left (hentry.mono (hD.trans hE))
  | .optional p =>
    -- the letters number the networks; `hE` adds the last state, the others up to `hJ` glue
    obtain ⟨hB, hdecision⟩ := net.extends_addState rule .decision
    obtain ⟨hC, hentry⟩ := extends_glued (hB.lt_size h) hdecision
    obtain ⟨hD, hinside⟩ := extends_addState_of hC rule .basic
    obtain ⟨hE, hexit⟩ := extends_addState_of hD rule .basic
    have hCE := hC.trans (hD.trans hE)
    obtain ⟨hF, htake⟩ := extends_glued (hCE.lt_size hdecision) (hE.lt_size hinside)
    obtain ⟨hH, hskip⟩ := extends_glued ((hCE.trans hF).lt_size hdecision) (hF.lt_size hexit)
    obtain ⟨hI, hlast, hp⟩ := layOut_spans rule p ((hE.trans (hF.trans hH)).lt_size hinside)
    obtain ⟨hJ, hout⟩ := extends_glued hlast ((hF.trans (hH.trans hI)).lt_size hexit)
    have hEJ := hF.trans (hH.trans (hI.trans hJ))
    have hentry := hentry.mono (hD.trans (hE.trans hEJ))
    refine ⟨hB.trans (hCE.trans hEJ), hEJ.lt_size hexit, .optional ?_ ?_⟩
    · exact hentry.trans (hskip.mono (hI.trans hJ))
    · exact ((hp.mono hJ).glue_right hout).glue_left (hentry.trans (htake.mono (hH.trans (hI.trans hJ))))
  | .many p =>
    obtain ⟨hB, hhead⟩ := net.extends_addState rule .loop
    obtain ⟨hC, hentry⟩ := extends_glued (hB.lt_size h) hhead
    obtain ⟨hD, hinside⟩ := extends_addState_of hC rule .basic
    obtain ⟨hE, hexit⟩ := extends_addState_of hD rule .basic
    have hCE := hC.trans (hD.trans hE)
    obtain ⟨hF, hagain⟩ := extends_glued (hCE.lt_size hhead) (hE.lt_size hinside)
    obtain ⟨hH, hstop⟩ := extends_glued ((hCE.trans hF).lt_size hhead) (hF.lt_size hexit)
    obtain ⟨hI, hlast, hp⟩ := layOut_spans rule p ((hE.trans (hF.trans hH)).lt_size hinside)
    obtain ⟨hJ, hback⟩ := extends_glued hlast ((hCE.trans (hF.trans (hH.trans hI))).lt_size hhead)
    have hEJ := hF.trans (hH.trans (hI.trans hJ))
    refine ⟨hB.trans (hCE.trans hEJ), hEJ.lt_size hexit, .many (hentry.mono (hD.trans (hE.trans hEJ))) ?_ ?_⟩
    · exact ((hp.mono hJ).glue_right hback).glue_left (hagain.mono (hH.trans (hI.trans hJ)))
    · exact hstop.mono (hI.trans hJ)
  | .many1 p =>
    obtain ⟨hB, hhead⟩ := net.extends_addState rule .loop
    obtain ⟨hC, hentry⟩ := extends_glued (hB.lt_size h) hhead
    obtain ⟨hD, hexit⟩ := extends_addState_of hC rule .basic
    obtain ⟨hE, hlast, hp⟩ := layOut_spans rule p ((hC.trans hD).lt_size hhead)
    obtain ⟨hF, hback⟩ := extends_glued hlast ((hC.trans (hD.trans hE)).lt_size hhead)
    obtain ⟨hH, hout⟩ := extends_glued (hF.lt_size hlast) ((hE.trans hF).lt_size hexit)
    have hDH := hE.trans (hF.trans hH)
    have hp := hp.mono (hF.trans hH)
    refine ⟨hB.trans (hC.trans (hD.trans hDH)), hDH.lt_size hexit, .many1 ?_ ?_ hout⟩
    · exact hp.glue_left (hentry.mono (hD.trans hDH))
    · exact hp.glue_left (hback.mono hH)

theorem layOutSequence_spans (rule : RuleId) (ps : List (ResolvedPattern σ τ)) {net : Network σ τ} {entry : StateId}
    (h : entry < net.states.size) :
    net.Extends (layOutSequence rule ps entry net).2 ∧
      (layOutSequence rule ps entry net).1 < (layOutSequence rule ps entry net).2.states.size ∧
      (layOutSequence rule ps entry net).2.Spans (.seq ps) entry (layOutSequence rule ps entry net).1 := by
  match ps with
  | [] => exact ⟨.refl net, h, .nil .refl⟩
  | p :: ps =>
    obtain ⟨hB, hnext, hp⟩ := layOut_spans rule p h
    obtain ⟨hC, hlast, hps⟩ := layOutSequence_spans rule ps hnext
    exact ⟨hB.trans hC, hlast, .cons (hp.mono hC) hps⟩

theorem layOutAlternatives_spans (rule : RuleId) (ps : List (ResolvedPattern σ τ)) {net : Network σ τ}
    {decision exit : StateId} (hd : decision < net.states.size) (he : exit < net.states.size) :
    net.Extends (layOutAlternatives rule ps decision exit net) ∧
      ∀ p ∈ ps, (layOutAlternatives rule ps decision exit net).Spans p decision exit := by
  match ps with
  | [] => exact ⟨.refl net, by simp⟩
  | p :: ps =>
    obtain ⟨hB, hbranch⟩ := net.extends_addState rule .basic
    obtain ⟨hC, hin⟩ := extends_glued (hB.lt_size hd) hbranch
    obtain ⟨hD, hlast, hp⟩ := layOut_spans rule p (hC.lt_size hbranch)
    obtain ⟨hE, hout⟩ := extends_glued hlast ((hB.trans (hC.trans hD)).lt_size he)
    have hBE := hB.trans (hC.trans (hD.trans hE))
    obtain ⟨hF, hps⟩ := layOutAlternatives_spans rule ps (hBE.lt_size hd) (hBE.lt_size he)
    refine ⟨hBE.trans hF, List.forall_mem_cons.2 ⟨?_, hps⟩⟩
    exact (((hp.mono hE).glue_right hout).glue_left (hin.mono (hD.trans hE))).mono hF

end

/-- A body is laid out between the end points of its rule. -/
theorem layOutRule_spans {rule : RuleId} {info : Rule} (p : ResolvedPattern σ τ) (h : net.rules[rule]? = some info)
    (hstart : info.start < net.states.size) :
    net.Extends (net.layOutRule rule p) ∧ (net.layOutRule rule p).Spans p info.start info.stop := by
  rw [layOutRule_eq p h]
  obtain ⟨hB, hlast, hp⟩ := layOut_spans rule p hstart
  obtain ⟨hC, hglued⟩ := extends_addTransition hlast (.epsilon info.stop)
  exact ⟨hB.trans hC, (hp.mono hC).glue_right (.single hglued)⟩

/-! ### Following a form -/

/-- The form is laid out in front of the configuration.  Where the rule of the configuration is matched, it can be
left, and what remains is laid out where the innermost invocation goes on. -/
inductive Represents (net : Network σ τ) : Configuration → Form (Label σ τ) RuleId → Prop where
  | finish {s t : StateId} (hg : net.Glued s t) (h : .leave ∈ net.transitions t) : Represents net ⟨s, []⟩ []
  | leave {s t : StateId} {frame : Frame} {stack : CallStack} {F : Form (Label σ τ) RuleId} (hg : net.Glued s t)
    (h : .leave ∈ net.transitions t) (hF : Represents net ⟨frame.follow, stack⟩ F) :
    Represents net ⟨s, frame :: stack⟩ F
  | cons {s t : StateId} {stack : CallStack} {p : ResolvedPattern σ τ} {F : Form (Label σ τ) RuleId}
    (h : net.Spans p s t) (hF : Represents net ⟨t, stack⟩ F) : Represents net ⟨s, stack⟩ (p :: F)

variable {stack : CallStack} {F : Form (Label σ τ) RuleId}

theorem Glued.reaches (h : net.Glued s t) (stack : CallStack) : net.Reaches ⟨s, stack⟩ ⟨t, stack⟩ :=
  h.lift (fun s => (⟨s, stack⟩ : Configuration)) fun _ _ h => .epsilon h

theorem Represents.glue_left (hg : net.Glued s' s) (h : net.Represents ⟨s, stack⟩ F) :
    net.Represents ⟨s', stack⟩ F := by
  cases h with
  | finish hs h => exact .finish (hg.trans hs) h
  | leave hs h hF => exact .leave (hg.trans hs) h hF
  | cons h hF => exact .cons (h.glue_left hg) hF

/-- A sequence represents its items. -/
theorem Represents.of_seq {ps : List (ResolvedPattern σ τ)} (h : net.Spans (.seq ps) s t)
    (hF : net.Represents ⟨t, stack⟩ F) : net.Represents ⟨s, stack⟩ (ps ++ F) := by
  induction ps generalizing s with
  | nil =>
    cases h with
    | nil hg => exact hF.glue_left hg
  | cons p ps ih =>
    cases h with
    | cons hp hps => exact .cons hp (ih hps)

/-- A configuration that represents nothing more finishes. -/
theorem Represents.exists_canFinish {c : Configuration} (h : net.Represents c []) :
    ∃ c', net.Reaches c c' ∧ net.CanFinish c' := by
  generalize hF : ([] : Form (Label σ τ) RuleId) = F at h
  induction h with
  | finish hg h => exact ⟨_, hg.reaches [], rfl, h⟩
  | leave hg h _ ih =>
    obtain ⟨c', hc, hf⟩ := ih hF
    exact ⟨c', ((hg.reaches _).tail (.leave h rfl)).trans hc, hf⟩
  | cons => cases hF

/-- The first pattern of a form lies ahead once the finished rules are left. -/
theorem Represents.exists_spans {c : Configuration} (h : net.Represents c (p :: F)) :
    ∃ s t stack, net.Reaches c ⟨s, stack⟩ ∧ net.Spans p s t ∧ net.Represents ⟨t, stack⟩ F := by
  generalize hF : p :: F = F' at h
  induction h with
  | finish => cases hF
  | leave hg h _ ih =>
    obtain ⟨s, t, stack, hc, hp⟩ := ih hF
    exact ⟨s, t, stack, ((hg.reaches _).tail (.leave h rfl)).trans hc, hp⟩
  | cons h hF' =>
    obtain ⟨rfl, rfl⟩ := List.cons.inj hF
    exact ⟨_, _, _, .refl, h, hF'⟩

/-- A configuration that represents an atom next reaches a transition that consumes it. -/
theorem Represents.exists_consume {c : Configuration} {label : Label σ τ}
    (h : net.Represents c (.atom label :: F)) :
    ∃ c' target, net.Reaches c c' ∧ .consume label target ∈ net.transitions c'.state ∧
      net.Represents (c'.movedTo target) F := by
  obtain ⟨s, t, stack, hc, hp, hF⟩ := h.exists_spans
  cases hp with
  | atom hs hx ht => exact ⟨_, _, hc.trans (hs.reaches stack), hx, hF.glue_left ht⟩

variable [DecidableEq σ] [SymbolSet τ σ] {bodies : List (ResolvedPattern σ τ)}

/-- Each body lies between the start state of its rule and a state where the rule can be left. -/
def Hosts (net : Network σ τ) (bodies : List (ResolvedPattern σ τ)) : Prop :=
  ∀ {rule p}, bodies[rule]? = some p →
    ∃ start stop, net.start? rule = some start ∧ net.Spans p start stop ∧ .leave ∈ net.transitions stop

/-- A leftmost expansion is followed by moves. -/
theorem Represents.exists_expand (hn : net.Hosts bodies) {c : Configuration} {E : Form (Label σ τ) RuleId}
    (h : net.Represents c (p :: F)) (he : (ofBodies bodies).Expands p E) :
    ∃ c', net.Reaches c c' ∧ net.Represents c' (E ++ F) := by
  obtain ⟨s, t, stack, hc, hp, hF⟩ := h.exists_spans
  cases he with
  | empty =>
    cases hp with
    | empty hg => exact ⟨_, hc, hF.glue_left hg⟩
  | ref hr =>
    cases hp with
    | ref hs hcall ht =>
      obtain ⟨start, stop, hstart, hp, hleave⟩ := hn hr
      refine ⟨_, (hc.trans (hs.reaches stack)).tail (.call hcall hstart), .cons hp ?_⟩
      exact .leave .refl hleave (hF.glue_left ht)
  | seq => exact ⟨_, hc, .of_seq hp hF⟩
  | alt hq =>
    cases hp with
    | alt hp => exact ⟨_, hc, .cons (hp _ hq) hF⟩
  | skip =>
    cases hp with
    | optional hg => exact ⟨_, hc, hF.glue_left hg⟩
  | take =>
    cases hp with
    | optional _ hp => exact ⟨_, hc, .cons hp hF⟩
  | stop =>
    cases hp with
    | many hs _ ht => exact ⟨_, hc, hF.glue_left (hs.trans ht)⟩
  | again =>
    cases hp with
    | many hs hp ht => exact ⟨_, hc, .cons (hp.glue_left hs) (.cons (.many .refl hp ht) hF)⟩
  | many1 =>
    cases hp with
    | many1 hs hp ht => exact ⟨_, hc, .cons hs (.cons (.many .refl hp ht) hF)⟩

/-- What the form yields is read, and what remains of the form lies ahead. -/
theorem Represents.exists_reads (hn : net.Hosts bodies) {c : Configuration} {R : Form (Label σ τ) RuleId} {w : List σ}
    (h : net.Represents c F) (hy : (ofBodies bodies).Yields F w R) :
    ∃ m c', net.Reads c w m ∧ net.Reaches m c' ∧ net.Represents c' R := by
  induction hy generalizing c with
  | refl F => exact ⟨c, c, .nil c, .refl, h⟩
  | expand he _ ih =>
    obtain ⟨c₁, hc, h⟩ := h.exists_expand hn he
    obtain ⟨m, c', hr, hm, h⟩ := ih h
    -- the moves of the expansion come before the next symbol, or after the last one
    cases hr with
    | nil => exact ⟨c, c', .nil c, hc.trans hm, h⟩
    | cons hm' hx hr => exact ⟨m, c', .cons (hc.trans hm') hx hr, hm, h⟩
  | emit ha _ ih =>
    obtain ⟨c₁, target, hc, hx, h⟩ := h.exists_consume
    obtain ⟨m, c', hr, hm, h⟩ := ih h
    exact ⟨m, c', .cons hc (.mk hx ha) hr, hm, h⟩

end Typeahead.Network
