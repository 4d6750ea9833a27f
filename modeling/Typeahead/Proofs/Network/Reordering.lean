import Typeahead.Proofs.Network.Ownership
import Typeahead.Proofs.Network.Pacing
import Typeahead.Proofs.Network.ParallelLayout

/-!
# Rules in another order

The bodies of a network are laid out one rule after the other.  While the body of a rule is laid out, the states of the
other rules are left alone (`Spares`), so in the end each rule looks as it did when its own body had been laid out
(`spares_layOutBodies`).  If the same rules are laid out in another order, each of them is therefore found again, with
the same states behind its end points, and the whole networks differ in the numbers of rules and states only
(`Reorders.renumbers`).
-/

namespace Typeahead

open Declarations Network

variable {σ τ : Type} {net net' net'' : Network σ τ} {rule other : Nat} {info : Rule} {s s' : StateId}
  {f : RuleId → RuleId}

namespace Network

/-! ### Rules that are left alone -/

/-- The second network has the same states of the rule, with the same transitions. -/
structure Spares (rule : RuleId) (net net' : Network σ τ) : Prop where
  rules : net'.rules = net.rules
  owner?_iff : ∀ s, net'.owner? s = some rule ↔ net.owner? s = some rule
  transitions : ∀ {s}, net.owner? s = some rule → net'.transitions s = net.transitions s

theorem Spares.refl (rule : RuleId) (net : Network σ τ) : Spares rule net net := ⟨rfl, fun _ => Iff.rfl, fun _ => rfl⟩

theorem Spares.trans (h : Spares rule net net') (h' : Spares rule net' net'') : Spares rule net net'' where
  rules := h'.rules.trans h.rules
  owner?_iff s := (h'.owner?_iff s).trans (h.owner?_iff s)
  transitions hs := (h'.transitions ((h.owner?_iff _).2 hs)).trans (h.transitions hs)

theorem Spares.bodiless (h : Spares rule net net') (hb : net.Bodiless rule info) : net'.Bodiless rule info where
  rules := by rw [h.rules, hb.rules]
  start_ne_stop := hb.start_ne_stop
  owner_start := (h.owner?_iff _).2 hb.owner_start
  owner_stop := (h.owner?_iff _).2 hb.owner_stop
  transitions_start := (h.transitions hb.owner_start).trans hb.transitions_start
  eq_leave := by
    rw [h.transitions hb.owner_stop]
    exact hb.eq_leave

/-- Laying out a body spares the other rules. -/
theorem Bodiless.spares (h : net.Bodiless rule info) (p : ResolvedPattern σ τ) (hne : other ≠ rule) :
    Spares other net (net.layOutRule rule p) := by
  have hg := h.growsAt p
  refine ⟨hg.rules, fun s => ?_, fun {s} hs => ?_⟩
  · rw [hg.owner?]
    split
    · rename_i hnew
      refine ⟨fun hs => absurd (Option.some.inj hs).symm hne, fun hs => ?_⟩
      exact absurd (lt_size_of_owner? hs) (Nat.not_lt.2 hnew.1)
    · rfl
  · refine hg.transitions s (lt_size_of_owner? hs) ?_
    rintro rfl
    exact hne (Option.some.inj (hs.symm.trans h.owner_start))

/-- Laying out several bodies spares the rules that are not among them. -/
theorem spares_foldl_layOutRule {l : List (ResolvedPattern σ τ × Nat)}
    (hl : ∀ x ∈ l, ∃ info, net.Bodiless x.2 info) (hn : (l.map (·.2)).Nodup) (hr : rule ∉ l.map (·.2)) :
    Spares rule net (l.foldl (fun net (p, rule) => net.layOutRule rule p) net) := by
  induction l generalizing net with
  | nil => exact .refl rule net
  | cons x l ih =>
    obtain ⟨⟨info, hx⟩, hl⟩ := List.forall_mem_cons.1 hl
    obtain ⟨hnew, hn⟩ := List.nodup_cons.1 hn
    obtain ⟨hne, hr⟩ := not_or.1 (mt List.mem_cons.2 hr)
    refine (hx.spares x.1 hne).trans (ih (fun y hy => ?_) hn hr)
    obtain ⟨info', hy'⟩ := hl y hy
    have hne' : y.2 ≠ x.2 := by
      intro he
      exact hnew (List.mem_map.2 ⟨y, hy, he⟩)
    exact ⟨info', (hx.spares x.1 hne').bodiless hy'⟩

/-! ### The body of one rule -/

section OneRule

variable {names : List String} {bodies : List (ResolvedPattern σ τ)} {p : ResolvedPattern σ τ}

/-- The network before the body of the rule is laid out. -/
def before (names : List String) (bodies : List (ResolvedPattern σ τ)) (rule : Nat) : Network σ τ :=
  layOutBodies (declareRules names) (bodies.take rule)

/-- What comes before a rule spares it and all rules that follow. -/
private theorem spares_before (h : bodies.length ≤ names.length) (hle : rule ≤ other) :
    Spares other (declareRules names) (before names bodies rule) := by
  have hd : (declareRules names : Network σ τ).Declares names := declares_declareRules names
  refine spares_foldl_layOutRule (fun x hx => ?_) ?_ ?_
  · have hlt := List.snd_lt_of_mem_zipIdx hx
    rw [List.length_take] at hlt
    have hlt' : x.2 < names.length := by omega
    exact ⟨_, hd.bodiless hlt'⟩
  · rw [List.zipIdx_map_snd]
    exact List.nodup_range'
  · rw [List.zipIdx_map_snd, List.mem_range'_1, List.length_take]
    omega

/-- In the end a rule looks as it did when its body had just been laid out. -/
theorem spares_layOutBodies (h : bodies.length ≤ names.length) (hp : bodies[rule]? = some p) :
    Spares rule ((before names bodies rule).layOutRule rule p) (layOutBodies (declareRules names) bodies) := by
  have hd : (declareRules names : Network σ τ).Declares names := declares_declareRules names
  obtain ⟨hlt, rfl⟩ := List.getElem?_eq_some_iff.1 hp
  -- the rules behind this one are laid out last
  have hsplit : layOutBodies (declareRules names) bodies = ((bodies.drop (rule + 1)).zipIdx (rule + 1)).foldl
      (fun net (p, rule) => net.layOutRule rule p) ((before names bodies rule).layOutRule rule bodies[rule]) := by
    have hlength : (bodies.take rule).length = rule := List.length_take_of_le (Nat.le_of_lt hlt)
    conv_lhs => rw [layOutBodies, ← List.take_append_drop rule bodies, List.drop_eq_getElem_cons hlt]
    rw [List.zipIdx_append, List.foldl_append, List.zipIdx_cons, List.foldl_cons, hlength, Nat.zero_add]
    rfl
  have hbodiless : ∀ other : Nat, rule ≤ other → other < names.length →
      ∃ info, (before names bodies rule).Bodiless other info := by
    intro other hle hlt
    exact ⟨_, (spares_before h hle).bodiless (hd.bodiless hlt)⟩
  rw [hsplit]
  refine spares_foldl_layOutRule (fun x hx => ?_) ?_ ?_
  · have hlt' := List.snd_lt_of_mem_zipIdx hx
    have hle := List.le_snd_of_mem_zipIdx hx
    rw [List.length_drop] at hlt'
    obtain ⟨info, hb⟩ := hbodiless rule (Nat.le_refl rule) (by omega)
    obtain ⟨info', hb'⟩ := hbodiless x.2 (by omega) (by omega)
    exact ⟨info', (hb.spares _ (by omega)).bodiless hb'⟩
  · rw [List.zipIdx_map_snd]
    exact List.nodup_range'
  · rw [List.zipIdx_map_snd, List.mem_range'_1]
    omega

theorem rules_layOutBodies (h : bodies.length ≤ names.length) :
    (layOutBodies (declareRules names) bodies).rules = (declareRules names : Network σ τ).rules := by
  have hrules := (spares_before h (Nat.le_refl bodies.length)).rules
  rwa [before, List.take_length] at hrules

/-- Before its body is laid out, a rule has just its end points. -/
theorem exists_bodiless_before (h : bodies.length ≤ names.length) (hr : rule < names.length) :
    ∃ name, (before names bodies rule).Bodiless rule ⟨name, 2 * rule, 2 * rule + 1⟩ ∧
      (before names bodies rule).transitions (2 * rule + 1) = [.leave] := by
  have hb := (declares_declareRules names : (declareRules names : Network σ τ).Declares names).bodiless hr
  have hspares := spares_before h (Nat.le_refl rule)
  have hstop : (declareRules names : Network σ τ).states[2 * rule + 1]? =
      some ⟨2 * rule + 1, (2 * rule + 1) / 2, .ruleStop, [.leave]⟩ := by
    rw [getElem?_states_declareRules, if_pos (by omega), if_neg (by omega)]
  exact ⟨_, hspares.bodiless hb, by rw [hspares.transitions hb.owner_stop, transitions_of_getElem? hstop]⟩

theorem getElem?_rules_layOutBodies (h : bodies.length ≤ names.length) (hr : rule < names.length) :
    ∃ name, (layOutBodies (declareRules names) bodies).rules[rule]? = some ⟨name, 2 * rule, 2 * rule + 1⟩ := by
  rw [rules_layOutBodies h, ((declares_declareRules names).bodiless hr).rules]
  exact ⟨_, rfl⟩

theorem getElem?_rules_eq_none (h : bodies.length ≤ names.length) (hr : ¬ rule < names.length) :
    (layOutBodies (declareRules names) bodies).rules[rule]? = none := by
  rw [rules_layOutBodies h, (declares_declareRules names).rules, List.getElem?_eq_none (Nat.not_lt.1 hr)]
  rfl

theorem size_layOutRule (h : net.rules[rule]? = some info) (p : ResolvedPattern σ τ) :
    (net.layOutRule rule p).states.size = net.states.size + p.stateCount := by
  rw [layOutRule_eq p h, size_states_addTransition, size_layOut]

/-- The states of a network are the end points of its rules and the states of the bodies. -/
theorem size_layOutBodies (h : bodies.length ≤ names.length) :
    (layOutBodies (declareRules names) bodies).states.size = 2 * names.length + (bodies.map (·.stateCount)).sum := by
  have hd : (declareRules names : Network σ τ).Declares names := declares_declareRules names
  induction bodies using List.reverseRecOn with
  | nil => exact hd.size_states
  | append_singleton bodies p ih =>
    rw [List.length_append, List.length_singleton] at h
    have hlt : bodies.length < names.length := h
    obtain ⟨_, hrule⟩ := getElem?_rules_layOutBodies (Nat.le_of_lt hlt) hlt
    have hlast : layOutBodies (declareRules names) (bodies ++ [p]) =
        (layOutBodies (declareRules names) bodies).layOutRule bodies.length p := by
      unfold layOutBodies
      rw [List.zipIdx_append, List.foldl_append, Nat.zero_add]
      rfl
    rw [hlast, size_layOutRule hrule, ih (Nat.le_of_lt hlt), List.map_append, List.sum_append, List.map_singleton,
      List.sum_singleton, Nat.add_assoc]

end OneRule

/-! ### Counterparts -/

/-- The states of a rule in two networks: its end points, and the states that are added for its body, in a row. -/
inductive Counterpart (rule : Nat) (net : Network σ τ) (other : Nat) (net' : Network σ τ) : StateId → StateId → Prop
  | start : Counterpart rule net other net' (2 * rule) (2 * other)
  | stop : Counterpart rule net other net' (2 * rule + 1) (2 * other + 1)
  | added (k : Nat) : Counterpart rule net other net' (net.states.size + k) (net'.states.size + k)

theorem Counterpart.flip (h : Counterpart rule net other net' s s') : Counterpart other net' rule net s' s := by
  cases h with
  | start => exact .start
  | stop => exact .stop
  | added k => exact .added k

/-- A state has one counterpart only, because the end points of its rule come before the states that are added. -/
private theorem eq_of_counterpart (h : 2 * other + 1 < net'.states.size) {u : StateId}
    (hs : Counterpart rule net other net' s u) (hs' : Counterpart rule net other net' s' u) : s = s' := by
  -- the common state gets two names, so that both correspondences can be taken apart
  generalize hu : u = v at hs'
  cases hs <;> cases hs' <;> grind

theorem biUnique_counterpart (h : 2 * rule + 1 < net.states.size) (h' : 2 * other + 1 < net'.states.size) :
    Relator.BiUnique (Counterpart rule net other net') :=
  ⟨fun _ _ _ hs hs' => eq_of_counterpart h' hs hs', fun _ _ _ hs hs' => eq_of_counterpart h hs.flip hs'.flip⟩

/-- The same body is laid out in counterparts. -/
theorem Bodiless.twins_layOutRule {name name' : String} (h : net.Bodiless rule ⟨name, 2 * rule, 2 * rule + 1⟩)
    (h' : net'.Bodiless other ⟨name', 2 * other, 2 * other + 1⟩)
    (hleave : net.transitions (2 * rule + 1) = [.leave]) (hleave' : net'.transitions (2 * other + 1) = [.leave])
    (f : RuleId → RuleId) (p : ResolvedPattern σ τ) :
    (net.layOutRule rule p).Twins f (Counterpart rule net other net') (net'.layOutRule other (p.mapRefs f)) := by
  have hstop := lt_size_of_owner? h.owner_stop
  have hstop' := lt_size_of_owner? h'.owner_stop
  have htwins : net.Twins f (Counterpart rule net other net') net' := by
    refine ⟨biUnique_counterpart hstop hstop', fun hs => ?_, .added, fun hs => ?_⟩
    · cases hs with
      | start => exact iff_of_true (lt_size_of_owner? h.owner_start) (lt_size_of_owner? h'.owner_start)
      | stop => exact iff_of_true hstop hstop'
      | added k => exact iff_of_false (Nat.not_lt.2 (Nat.le_add_right _ _)) (Nat.not_lt.2 (Nat.le_add_right _ _))
    · cases hs with
      | start =>
        have hstart : net.transitions (2 * rule) = [] := h.transitions_start
        have hstart' : net'.transitions (2 * other) = [] := h'.transitions_start
        rw [hstart, hstart']
        exact .nil
      | stop =>
        rw [hleave, hleave']
        exact .cons .leave .nil
      | added k =>
        rw [transitions_eq_nil (Nat.le_add_right _ _), transitions_eq_nil (Nat.le_add_right _ _)]
        exact .nil
  obtain ⟨hbody, hlast⟩ := htwins.layOut rule other p .start
  rw [layOutRule_eq p h.rules, layOutRule_eq _ h'.rules]
  exact hbody.addTransition hlast (.epsilon .stop)

end Network

theorem Transition.Matches.mono {σ τ : Type} {f : RuleId → RuleId} {S S' : StateId → StateId → Prop}
    {t t' : Transition σ τ} (h : t.Matches f S t')
    (hS : ∀ {u u'}, t.next? = some u → t'.next? = some u' → S u u' → S' u u') : t.Matches f S' t' := by
  cases h with
  | epsilon hu => exact .epsilon (hS rfl rfl hu)
  | consume label hu => exact .consume label (hS rfl rfl hu)
  | call rule hu => exact .call rule (hS rfl rfl hu)
  | leave => exact .leave

mutual

theorem Pattern.stateCount_mapRefs {α ρ κ : Type} (f : ρ → κ) (p : Pattern α ρ) :
    (p.mapRefs f).stateCount = p.stateCount := by
  match p with
  | .empty | .atom a | .ref r => rfl
  | .seq ps => exact Pattern.stateCountOf_mapRefsAll f ps
  | .alt ps =>
    have hlength : (Pattern.mapRefsAll f ps).length = ps.length := by rw [Pattern.mapRefsAll_eq_map, List.length_map]
    simp only [Pattern.mapRefs, Pattern.stateCount, hlength, Pattern.stateCountOf_mapRefsAll f ps]
  | .optional p | .many p | .many1 p =>
    simp only [Pattern.mapRefs, Pattern.stateCount, Pattern.stateCount_mapRefs f p]

theorem Pattern.stateCountOf_mapRefsAll {α ρ κ : Type} (f : ρ → κ) (ps : List (Pattern α ρ)) :
    Pattern.stateCountOf (Pattern.mapRefsAll f ps) = Pattern.stateCountOf ps := by
  match ps with
  | [] => rfl
  | p :: ps =>
    simp only [Pattern.mapRefsAll, Pattern.stateCountOf, Pattern.stateCount_mapRefs f p,
      Pattern.stateCountOf_mapRefsAll f ps]

end

/-! ### The same rules in another order -/

namespace Network

/-- The second list holds the bodies of the first in another order: `f` gives the new numbers of the rules. -/
structure Reorders (f : RuleId → RuleId) (names names' : List String) (bodies bodies' : List (ResolvedPattern σ τ)) :
    Prop where
  injective : f.Injective
  getElem? : ∀ rule : Nat, bodies'[f rule]? = bodies[rule]?.map (Pattern.mapRefs f)
  perm : bodies'.Perm (bodies.map (Pattern.mapRefs f))
  length : names.length = bodies.length
  length' : names'.length = bodies'.length
  refs : ∀ p ∈ bodies, p.All (fun _ => True) (· < names.length)
  refs' : ∀ p ∈ bodies', p.All (fun _ => True) (· < names'.length)

variable {names names' : List String} {bodies bodies' : List (ResolvedPattern σ τ)}

/-- The states belong to the same rule, and one is the counterpart of the other. -/
def Corresponds (f : RuleId → RuleId) (names names' : List String) (bodies bodies' : List (ResolvedPattern σ τ))
    (s s' : StateId) : Prop :=
  ∃ rule : Nat, (layOutBodies (declareRules names) bodies).owner? s = some rule ∧
    (layOutBodies (declareRules names') bodies').owner? s' = some (f rule) ∧
    Counterpart rule (before names bodies rule) (f rule) (before names' bodies' (f rule)) s s'

theorem Reorders.length_eq (h : Reorders f names names' bodies bodies') : names'.length = names.length := by
  rw [h.length', h.perm.length_eq, List.length_map, h.length]

theorem Reorders.lt_iff (h : Reorders f names names' bodies bodies') {rule : Nat} :
    f rule < names'.length ↔ rule < names.length := by
  rw [h.length', h.length, ← not_iff_not, Nat.not_lt, Nat.not_lt, ← List.getElem?_eq_none_iff,
    ← List.getElem?_eq_none_iff, h.getElem?, Option.map_eq_none_iff]

/-- A rule is laid out in counterparts, and what is laid out before and afterwards does not touch these. -/
private theorem Reorders.exists_twins (h : Reorders f names names' bodies bodies') {rule : Nat}
    (hr : rule < names.length) : ∃ p,
      Spares rule ((before names bodies rule).layOutRule rule p) (layOutBodies (declareRules names) bodies) ∧
      Spares (f rule) ((before names' bodies' (f rule)).layOutRule (f rule) (p.mapRefs f))
        (layOutBodies (declareRules names') bodies') ∧
      ((before names bodies rule).layOutRule rule p).Twins f
        (Counterpart rule (before names bodies rule) (f rule) (before names' bodies' (f rule)))
        ((before names' bodies' (f rule)).layOutRule (f rule) (p.mapRefs f)) := by
  have hle := Nat.le_of_eq h.length.symm
  have hle' := Nat.le_of_eq h.length'.symm
  obtain ⟨_, hb, hleave⟩ := exists_bodiless_before hle hr
  obtain ⟨_, hb', hleave'⟩ := exists_bodiless_before hle' (h.lt_iff.2 hr)
  obtain ⟨p, hp⟩ : ∃ p, bodies[rule]? = some p := ⟨_, List.getElem?_eq_getElem (h.length ▸ hr)⟩
  have hp' : bodies'[f rule]? = some (p.mapRefs f) := by rw [h.getElem?, hp, Option.map_some]
  exact ⟨p, spares_layOutBodies hle hp, spares_layOutBodies hle' hp', hb.twins_layOutRule hb' hleave hleave' f p⟩

theorem Reorders.lt_length_of_owner? (h : Reorders f names names' bodies bodies') {rule : Nat}
    (ho : (layOutBodies (declareRules names) bodies).owner? s = some rule) : rule < names.length := by
  have hw : (layOutBodies (declareRules names) bodies).WellFormed fun _ => True := wellFormed_layOutBodies _ h.refs
  have hlt := hw.owner_lt ho
  rwa [rules_layOutBodies (Nat.le_of_eq h.length.symm), (declares_declareRules names).size_rules] at hlt

theorem Reorders.biUnique_corresponds (h : Reorders f names names' bodies bodies') :
    Relator.BiUnique (Corresponds f names names' bodies bodies') := by
  constructor
  · rintro s t u ⟨rule, ho, ho', hc⟩ ⟨other, -, hq', hd⟩
    obtain rfl : rule = other := h.injective (Option.some.inj (ho'.symm.trans hq'))
    obtain ⟨p, -, -, htwins⟩ := h.exists_twins (h.lt_length_of_owner? ho)
    exact htwins.biUnique.1 hc hd
  · rintro s t u ⟨rule, ho, ho', hc⟩ ⟨other, hq, -, hd⟩
    obtain rfl : rule = other := Option.some.inj (ho.symm.trans hq)
    obtain ⟨p, -, -, htwins⟩ := h.exists_twins (h.lt_length_of_owner? ho)
    exact htwins.biUnique.2 hc hd

theorem Reorders.size_eq (h : Reorders f names names' bodies bodies') :
    (layOutBodies (declareRules names') bodies').states.size =
      (layOutBodies (declareRules names) bodies).states.size := by
  have hcounts : (bodies.map (Pattern.mapRefs f)).map (·.stateCount) = bodies.map (·.stateCount) := by
    rw [List.map_map]
    exact List.map_congr_left fun p _ => p.stateCount_mapRefs f
  rw [size_layOutBodies (Nat.le_of_eq h.length.symm), size_layOutBodies (Nat.le_of_eq h.length'.symm), h.length_eq,
    (h.perm.map _).sum_eq, hcounts]

/-- Corresponding states have corresponding transitions, because a transition does not leave the rule of its source. -/
theorem Reorders.transitions (h : Reorders f names names' bodies bodies')
    (hc : Corresponds f names names' bodies bodies' s s') :
    List.Forall₂ (Transition.Matches f (Corresponds f names names' bodies bodies'))
      ((layOutBodies (declareRules names) bodies).transitions s)
      ((layOutBodies (declareRules names') bodies').transitions s') := by
  have hw : (layOutBodies (declareRules names) bodies).WellFormed fun _ => True := wellFormed_layOutBodies _ h.refs
  have hw' : (layOutBodies (declareRules names') bodies').WellFormed fun _ => True := wellFormed_layOutBodies _ h.refs'
  obtain ⟨rule, ho, ho', hc⟩ := hc
  obtain ⟨p, hspares, hspares', htwins⟩ := h.exists_twins (h.lt_length_of_owner? ho)
  have htransitions := htwins.transitions hc
  rw [← hspares.transitions ((hspares.owner?_iff s).1 ho), ← hspares'.transitions ((hspares'.owner?_iff s').1 ho')]
    at htransitions
  refine List.forall₂_iff_zip.2 ⟨htransitions.length_eq, fun {t t'} hmem => ?_⟩
  obtain ⟨ht, ht'⟩ := List.of_mem_zip hmem
  refine (List.forall₂_zip htransitions hmem).mono fun {u u'} hu hu' hc' => ?_
  exact ⟨rule, (hw.next ht hu).2.trans ho, (hw'.next ht' hu').2.trans ho', hc'⟩

theorem Reorders.start? (h : Reorders f names names' bodies bodies') (rule : RuleId) :
    Option.Rel (Corresponds f names names' bodies bodies') ((layOutBodies (declareRules names) bodies).start? rule)
      ((layOutBodies (declareRules names') bodies').start? (f rule)) := by
  have hw : (layOutBodies (declareRules names) bodies).WellFormed fun _ => True := wellFormed_layOutBodies _ h.refs
  have hw' : (layOutBodies (declareRules names') bodies').WellFormed fun _ => True := wellFormed_layOutBodies _ h.refs'
  have hle := Nat.le_of_eq h.length.symm
  have hle' := Nat.le_of_eq h.length'.symm
  unfold Network.start?
  by_cases hr : rule < names.length
  · obtain ⟨_, hinfo⟩ := getElem?_rules_layOutBodies hle hr
    obtain ⟨_, hinfo'⟩ := getElem?_rules_layOutBodies hle' (h.lt_iff.2 hr)
    rw [hinfo, hinfo']
    exact .some ⟨rule, hw.owner?_start hinfo, hw'.owner?_start hinfo', .start⟩
  · rw [getElem?_rules_eq_none hle hr, getElem?_rules_eq_none hle' (mt h.lt_iff.1 hr)]
    exact .none

/-- A network whose rules are laid out in another order is the same up to the numbers of rules and states. -/
theorem Reorders.renumbers (h : Reorders f names names' bodies bodies') :
    (layOutBodies (declareRules names) bodies).Renumbers f (Corresponds f names names' bodies bodies')
      (layOutBodies (declareRules names') bodies') where
  injective := h.injective
  biUnique := h.biUnique_corresponds
  size := h.size_eq
  transitions := h.transitions
  start? := h.start?
  owner? := by
    rintro s s' ⟨rule, ho, ho', -⟩
    rw [ho, ho', Option.map_some]

end Network

end Typeahead
