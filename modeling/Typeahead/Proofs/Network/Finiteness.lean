import Mathlib.Algebra.Order.BigOperators.Group.Finset
import Mathlib.Data.Set.Finite.List
import Typeahead.Proofs.Network.CallFree
import Typeahead.Proofs.Network.Trace

/-!
# How far a search can go

The frames below the watermark of a waiting configuration are frames of some seed, and of the frames above it no more
than the re-entry limit allows belong to one rule (`Pending.Bounded`).  Hence stacks are no deeper than that of a seed
by the re-entry limit times the number of rules, there are finitely many of them, and a limit on configurations that is
high enough cuts no closure short (`closure_bounded_by_reentry`).
-/

namespace Typeahead

variable {σ τ : Type} {net : Network σ τ} {seeds : List Configuration} {reentry : Nat}

namespace Network

/-- The states that a search from the seeds can come to: those of the network and those that the seeds name. -/
def landings (net : Network σ τ) (seeds : List Configuration) : List StateId :=
  List.range net.states.size ++ seeds.flatMap fun c => c.state :: c.stack.map (·.follow)

/-- The frames that the network can open. -/
def callFrames (net : Network σ τ) : List Frame :=
  (List.range net.rules.size).flatMap fun rule => (List.range net.states.size).map fun follow => ⟨rule, follow⟩

theorem mem_callFrames {frame : Frame} :
    frame ∈ net.callFrames ↔ frame.rule < net.rules.size ∧ frame.follow < net.states.size := by
  obtain ⟨rule, follow⟩ := frame
  simp [callFrames]

theorem lt_of_start? {rule : RuleId} {start : StateId} (h : net.start? rule = some start) : rule < net.rules.size := by
  obtain ⟨info, hinfo, -⟩ := Option.map_eq_some_iff.1 h
  exact (Array.getElem?_eq_some_iff.1 hinfo).1

end Network

namespace Pending

/-- The frames below the watermark are frames of a seed, those above it were opened by the search, and no rule was
opened more often than it may be. -/
structure Bounded (net : Network σ τ) (seeds : List Configuration) (reentry : Nat) (p : Pending) : Prop where
  state_mem : p.config.state ∈ net.landings seeds
  exists_split : ∃ seed ∈ seeds, ∃ opened below, p.config.stack = opened ++ below ∧ below.length = p.watermark ∧
    below <:+ seed.stack ∧ (∀ frame ∈ opened, frame ∈ net.callFrames) ∧
    ∀ rule, opened.countP (·.rule = rule) ≤ reentry

variable {p q : Pending}

theorem bounded_ofSeed {c : Configuration} (h : c ∈ seeds) : (ofSeed c).Bounded net seeds reentry := by
  refine ⟨?_, c, h, [], c.stack, rfl, rfl, List.suffix_rfl, by simp, by simp⟩
  exact List.mem_append_right _ (List.mem_flatMap.2 ⟨c, h, List.mem_cons_self ..⟩)

/-- The frames above the watermark are those that count towards the re-entry limit. -/
theorem reentries_append (s : StateId) (opened below : List Frame) (rule : RuleId) :
    reentries ⟨⟨s, opened ++ below⟩, below.length⟩ rule = opened.countP (·.rule = rule) := by
  unfold reentries
  congr 1
  exact List.take_left' (by simp [CallStack.depth])

/-- Each move of the search keeps the bounds. -/
theorem Bounded.of_mem_moves (h : p.Bounded net seeds reentry) (hn : net.InRange) (hq : q ∈ net.moves reentry p) :
    q.Bounded net seeds reentry := by
  obtain ⟨⟨s, stack⟩, watermark⟩ := p
  obtain ⟨hstate, seed, hseed, opened, below, hstack, hlen, hbelow, hframes, hcount⟩ := h
  obtain rfl : stack = opened ++ below := hstack
  obtain rfl : below.length = watermark := hlen
  have hland : ∀ {s : StateId}, s < net.states.size → s ∈ net.landings seeds := fun hs =>
    List.mem_append_left _ (List.mem_range.2 hs)
  obtain ⟨t, ht, hq⟩ := List.mem_filterMap.1 hq
  cases t with
  | epsilon target =>
    cases hq
    exact ⟨hland (hn.next_lt ht rfl), seed, hseed, opened, below, rfl, rfl, hbelow, hframes, hcount⟩
  | consume label target => cases hq
  | call rule follow =>
    simp only [Network.move?, reentries_append] at hq
    split at hq
    · cases hq
    · rename_i hlt
      obtain ⟨start, hs, rfl⟩ := Option.map_eq_some_iff.1 hq
      have hframe : ⟨rule, follow⟩ ∈ net.callFrames :=
        Network.mem_callFrames.2 ⟨Network.lt_of_start? hs, hn.next_lt ht rfl⟩
      refine ⟨hland (hn.start_lt hs), seed, hseed, ⟨rule, follow⟩ :: opened, below, rfl, rfl, hbelow,
        List.forall_mem_cons.2 ⟨hframe, hframes⟩, fun rule' => ?_⟩
      by_cases hr : rule = rule'
      · subst hr
        simpa using Nat.lt_of_not_le hlt
      · simpa [hr] using hcount rule'
  | leave =>
    cases opened with
    | cons frame opened =>
      cases hq
      obtain ⟨hframe, hframes⟩ := List.forall_mem_cons.1 hframes
      refine ⟨hland (Network.mem_callFrames.1 hframe).2, seed, hseed, opened, below, rfl, ?_, hbelow, hframes,
        fun rule => Nat.le_trans (List.sublist_cons_self ..).countP_le (hcount rule)⟩
      exact (Nat.min_eq_left (by simp [CallStack.depth])).symm
    | nil =>
      -- an invocation is left in which the search began
      cases below with
      | nil => cases hq
      | cons frame rest =>
        cases hq
        have hmem : frame ∈ seed.stack := hbelow.subset (List.mem_cons_self ..)
        refine ⟨?_, seed, hseed, [], rest, rfl, ?_, (List.suffix_cons ..).trans hbelow, by simp, by simp⟩
        · refine List.mem_append_right _ (List.mem_flatMap.2 ⟨seed, hseed, List.mem_cons_of_mem _ ?_⟩)
          exact List.mem_map_of_mem hmem
        · exact (Nat.min_eq_right (Nat.le_succ rest.length)).symm

/-- At most as many frames are open above the watermark as the rules may be opened together. -/
private theorem length_le_of_countP_le {opened : List Frame} (hframes : ∀ frame ∈ opened, frame ∈ net.callFrames)
    (hcount : ∀ rule, opened.countP (·.rule = rule) ≤ reentry) : opened.length ≤ reentry * net.rules.size := by
  have hmem : ∀ rule ∈ (opened.map (·.rule) : Multiset RuleId), rule ∈ Finset.range net.rules.size := by
    intro rule hr
    obtain ⟨frame, hf, rfl⟩ := List.mem_map.1 (Multiset.mem_coe.1 hr)
    exact Finset.mem_range.2 (Network.mem_callFrames.1 (hframes frame hf)).1
  have hsum := Finset.sum_le_card_nsmul (Finset.range net.rules.size)
    (fun rule => (opened.map (·.rule) : Multiset RuleId).count rule) reentry fun rule _ => by
      rw [Multiset.coe_count, List.count, List.countP_map]
      exact hcount rule
  rw [Multiset.sum_count_eq_card hmem, Multiset.coe_card, List.length_map, Finset.card_range] at hsum
  rwa [Nat.mul_comm]

end Pending

/-! ### Finitely many configurations -/

private theorem finite_lists {α : Type} (l : List α) (n : Nat) : {u : List α | u.length ≤ n ∧ u ⊆ l}.Finite := by
  have hrange : {u : List α | u.length ≤ n ∧ u ⊆ l} ⊆
      List.map (Subtype.val : {x // x ∈ l} → α) '' {u | u.length ≤ n} := by
    rintro u ⟨hlen, hsub⟩
    refine ⟨u.attach.map fun x => ⟨x.1, hsub x.2⟩, by simpa using hlen, ?_⟩
    rw [List.map_map]
    exact u.attach_map_subtype_val
  have : Finite {x // x ∈ l} := l.finite_toSet.to_subtype
  exact ((List.finite_length_le _ n).image _).subset hrange

namespace Network

/-- The configurations that a search from the seeds can come to at all. -/
def Within (net : Network σ τ) (seeds : List Configuration) (reentry : Nat) (c : Configuration) : Prop :=
  ∃ watermark, (⟨c, watermark⟩ : Pending).Bounded net seeds reentry

theorem finite_within (net : Network σ τ) (seeds : List Configuration) (reentry : Nat) :
    {c | net.Within seeds reentry c}.Finite := by
  have hbelow := (seeds.flatMap fun seed => seed.stack.tails).finite_toSet
  have hstacks := Set.Finite.image2 (· ++ ·) (finite_lists net.callFrames (reentry * net.rules.size)) hbelow
  refine (Set.Finite.image2 Configuration.mk (net.landings seeds).finite_toSet hstacks).subset ?_
  rintro ⟨s, stack⟩ ⟨_, hstate, seed, hseed, opened, below, hstack, -, hsuffix, hframes, hcount⟩
  have hopened := Pending.length_le_of_countP_le hframes hcount
  refine ⟨s, hstate, stack, ⟨opened, ⟨hopened, hframes⟩, below, ?_, hstack.symm⟩, rfl⟩
  exact List.mem_flatMap.2 ⟨seed, hseed, (List.mem_tails _ _).2 hsuffix⟩

theorem bounded_of_mem_explored (hn : net.InRange) {limits : Limits} :
    ∀ p ∈ net.explored limits seeds, p.Bounded net seeds limits.reentry :=
  forall_explored (fun _ hc => Pending.bounded_ofSeed hc) fun _ _ hp hq => hp.of_mem_moves hn hq

/-- The re-entry limit alone keeps a closure finite.  The stack of each explored configuration begins with outer frames
of a seed; of the frames behind them no more than the limit allows belong to one rule.  So its depth is bounded, and the
watermark that is carried with it does not exceed its depth.  If sufficiently many configurations may be explored, the
closure is not cut short. -/
theorem closure_bounded_by_reentry (hn : net.InRange) (seeds : List Configuration) (reentry : Nat) :
    (∀ configurations,
      (net.explored ⟨reentry, configurations⟩ seeds).map (·.config) =
          (net.closure ⟨reentry, configurations⟩ seeds).visited ∧
        ∀ p ∈ net.explored ⟨reentry, configurations⟩ seeds, p.watermark ≤ p.config.stack.depth ∧
          ∃ seed ∈ seeds, p.config.stack.depth ≤ seed.stack.depth + reentry * net.rules.size ∧
            ∃ outer opened, p.config.stack.frames = outer ++ opened ∧ outer <+: seed.stack.frames ∧
              ∀ rule, opened.countP (·.rule = rule) ≤ reentry) ∧
    ∃ bound, ∀ configurations, bound ≤ configurations →
      (net.closure ⟨reentry, configurations⟩ seeds).bound = none := by
  refine ⟨fun configurations => ⟨map_config_explored .., fun p hp => ?_⟩, ?_⟩
  · obtain ⟨-, seed, hseed, opened, below, hstack, hlen, hbelow, hframes, hcount⟩ := bounded_of_mem_explored hn p hp
    have hdepth : p.config.stack.depth = opened.length + below.length := by
      rw [hstack, CallStack.depth, List.length_append]
    have hopened : opened.length ≤ reentry * net.rules.size := Pending.length_le_of_countP_le hframes hcount
    have hseed' : below.length ≤ seed.stack.depth := hbelow.length_le
    have houter := List.reverse_prefix.2 hbelow
    refine ⟨by omega, seed, hseed, by omega, below.reverse, opened.reverse, ?_, houter, fun rule => ?_⟩
    · rw [CallStack.frames, hstack, List.reverse_append]
    · rw [List.countP_reverse]
      exact hcount rule
  · -- a closure that is cut short has explored as many configurations as it may
    refine ⟨(finite_within net seeds reentry).toFinset.card + 1, fun configurations hle => ?_⟩
    by_contra hb
    have hsub : (net.closure ⟨reentry, configurations⟩ seeds).visited.toFinset ⊆
        (finite_within net seeds reentry).toFinset := by
      intro c hc
      obtain ⟨p, hp, rfl⟩ := exists_explored (List.mem_toFinset.1 hc)
      exact (Set.Finite.mem_toFinset _).2 ⟨p.watermark, bounded_of_mem_explored hn p hp⟩
    have hcard := Finset.card_le_card hsub
    rw [List.toFinset_card_of_nodup nodup_visited] at hcard
    have hcut : configurations ≤ _ := le_length_of_bound_ne_none hb
    omega

/-- A rule that calls itself before anything else. -/
def nestingRule : Network Nat (List Nat) :=
  { states := #[⟨0, 0, .ruleStart, [.call 0 2, .consume (.symbol 7) 2]⟩, ⟨1, 0, .ruleStop, [.leave]⟩,
      ⟨2, 0, .basic, [.epsilon 1]⟩]
    rules := #[⟨"nest", 0, 1⟩] }

/-- Three invocations of the rule are within the limit, and with them every closure comes to its end. -/
theorem closure_nestingRule :
    (∀ p ∈ nestingRule.explored ⟨3, 100⟩ [.initial 0], p.config.stack.depth ≤ 3) ∧
      ∃ bound, ∀ configurations, bound ≤ configurations →
        (nestingRule.closure ⟨3, configurations⟩ [.initial 0, ⟨1, [⟨0, 2⟩]⟩]).bound = none := by
  have hn : nestingRule.InRange := by decide
  refine ⟨fun p hp => ?_, (closure_bounded_by_reentry hn _ 3).2⟩
  obtain ⟨-, seed, hseed, hdepth, -⟩ := ((closure_bounded_by_reentry hn _ 3).1 100).2 p hp
  rw [List.mem_singleton] at hseed
  subst hseed
  exact hdepth

end Network

end Typeahead
