import Typeahead.Proofs.Network.Exploration

/-!
# Closures that are cut short

The limit on configurations only tells where a search ends.  Up to there searches with different limits take the same
way: under the lower limit the first of the configurations are explored that are explored under the higher one
(`visited_prefix_of_le`), and a closure that is not cut short stays the same when the limit is raised
(`closure_eq_of_bound_eq_none`).  A closure is cut short just when there is more to explore than the limit allows, and
then it has explored exactly as many configurations as it may (`closure_cut_at_limit`).
-/

namespace Typeahead

variable {σ τ : Type} {net : Network σ τ} {reentry limit limit' : Nat}

namespace Exploration

variable {todo later : List Pending} {found : Exploration}

/-- What has been explored stays in front, and calls that are pruned are counted once and for all. -/
private theorem prefix_run (net : Network σ τ) (limits : Limits) (todo later : List Pending) (found : Exploration) :
    found.visited.toList <+: (run net limits todo later found).visited.toList ∧
      found.prunedCalls ≤ (run net limits todo later found).prunedCalls := by
  fun_induction run net limits todo later found with
  | case1 found => exact ⟨List.prefix_rfl, Nat.le_refl _⟩
  | case2 later found hl ih => rwa [List.unattach_reverse, List.unattach_attach] at ih
  | case3 later found p todo hv ih => exact ih
  | case4 later found p todo hv hs => exact ⟨List.prefix_rfl, Nat.le_refl _⟩
  | case5 later found p todo hv hs ih =>
    rw [ConfigurationSet.toList_push] at ih
    exact ⟨(List.prefix_append _ _).trans ih.1, (Nat.le_add_right _ _).trans ih.2⟩

/-- A search with a higher limit is no different until the lower limit is reached. -/
private theorem run_of_le (hle : limit ≤ limit') (todo later : List Pending) (found : Exploration) :
    ((run net ⟨reentry, limit⟩ todo later found).visited.toList <+:
        (run net ⟨reentry, limit'⟩ todo later found).visited.toList ∧
      (run net ⟨reentry, limit⟩ todo later found).prunedCalls ≤
        (run net ⟨reentry, limit'⟩ todo later found).prunedCalls) ∧
      ((run net ⟨reentry, limit⟩ todo later found).truncated = false →
        run net ⟨reentry, limit'⟩ todo later found = run net ⟨reentry, limit⟩ todo later found) := by
  fun_induction run net ⟨reentry, limit⟩ todo later found with
  | case1 found =>
    rw [run, if_pos rfl]
    exact ⟨⟨List.prefix_rfl, Nat.le_refl _⟩, fun _ => rfl⟩
  | case2 later found hl ih =>
    rw [List.unattach_reverse, List.unattach_attach] at ih
    rw [run.eq_1 _ ⟨reentry, limit'⟩, if_neg hl]
    exact ih
  | case3 later found p todo hv ih =>
    rw [run.eq_2 _ ⟨reentry, limit'⟩, if_pos hv]
    exact ih
  -- here the searches part
  | case4 later found p todo hv hs => exact ⟨prefix_run net _ _ later found, by simp⟩
  | case5 later found p todo hv hs ih =>
    have hs' : ¬ limit' ≤ found.visited.size := fun h => hs (Nat.le_trans hle h)
    rw [run.eq_2 _ ⟨reentry, limit'⟩, if_neg hv, if_neg hs']
    exact ih

/-- No search explores more than it may. -/
private theorem size_run_le {limits : Limits} (h : found.visited.size ≤ limits.configurations) :
    (run net limits todo later found).visited.size ≤ limits.configurations := by
  fun_induction run net limits todo later found with
  | case1 found => exact h
  | case2 later found hl ih =>
    rw [List.unattach_reverse, List.unattach_attach] at ih
    exact ih h
  | case3 later found p todo hv ih => exact ih h
  | case4 later found p todo hv hs => exact h
  | case5 later found p todo hv hs ih =>
    refine ih ?_
    rw [ConfigurationSet.size_push]
    exact Nat.lt_of_not_le hs

/-- When a search is cut short, it has explored as much as it may, and a higher limit lets it explore more. -/
private theorem of_truncated_run (h : (run net ⟨reentry, limit⟩ todo later found).truncated = true)
    (hf : found.truncated = false) (hsize : found.visited.size ≤ limit) :
    (run net ⟨reentry, limit⟩ todo later found).visited.size = limit ∧
      ∀ limit', limit < limit' → limit < (run net ⟨reentry, limit'⟩ todo later found).visited.size := by
  fun_induction run net ⟨reentry, limit⟩ todo later found with
  | case1 found => exact absurd h (Bool.eq_false_iff.1 hf)
  | case2 later found hl ih =>
    rw [List.unattach_reverse, List.unattach_attach] at ih
    refine ⟨(ih h hf hsize).1, fun limit' hlt => ?_⟩
    rw [run.eq_1 _ ⟨reentry, limit'⟩, if_neg hl]
    exact (ih h hf hsize).2 limit' hlt
  | case3 later found p todo hv ih =>
    refine ⟨(ih h hf hsize).1, fun limit' hlt => ?_⟩
    rw [run.eq_2 _ ⟨reentry, limit'⟩, if_pos hv]
    exact (ih h hf hsize).2 limit' hlt
  | case4 later found p todo hv hs =>
    refine ⟨Nat.le_antisymm hsize hs, fun limit' hlt => ?_⟩
    -- the configuration at which the lower limit is reached is explored under the higher one
    rw [run.eq_2 _ ⟨reentry, limit'⟩, if_neg hv, if_neg (Nat.not_le.2 (Nat.lt_of_le_of_lt hsize hlt))]
    have hpush := (prefix_run net ⟨reentry, limit'⟩ todo ((net.moves reentry p).reverse ++ later)
      ⟨found.visited.push p.config, found.prunedCalls + net.prunedCalls reentry p, found.truncated⟩).1.length_le
    rw [ConfigurationSet.toList_push, List.length_append, List.length_singleton] at hpush
    exact Nat.lt_of_le_of_lt hs hpush
  | case5 later found p todo hv hs ih =>
    have hpush : (found.visited.push p.config).size ≤ limit := by
      rw [ConfigurationSet.size_push]
      exact Nat.lt_of_not_le hs
    refine ⟨(ih h hf hpush).1, fun limit' hlt => ?_⟩
    have hs' : ¬ limit' ≤ found.visited.size := fun h => hs (Nat.le_trans (Nat.le_of_lt hlt) h)
    rw [run.eq_2 _ ⟨reentry, limit'⟩, if_neg hv, if_neg hs']
    exact (ih h hf hpush).2 limit' hlt

end Exploration

namespace Network

variable {seeds : List Configuration}

/-- The lower limit explores the first configurations of the higher one. -/
theorem visited_prefix_of_le (hle : limit ≤ limit') :
    (net.closure ⟨reentry, limit⟩ seeds).visited <+: (net.closure ⟨reentry, limit'⟩ seeds).visited :=
  (Exploration.run_of_le hle _ _ _).1.1

theorem frontier_prefix_of_le (hle : limit ≤ limit') :
    (net.closure ⟨reentry, limit⟩ seeds).frontier <+: (net.closure ⟨reentry, limit'⟩ seeds).frontier :=
  (visited_prefix_of_le hle).filter _

/-- An end that is found is found under each higher limit. -/
theorem acceptsEnd_of_le (hle : limit ≤ limit') (h : (net.closure ⟨reentry, limit⟩ seeds).acceptsEnd = true) :
    (net.closure ⟨reentry, limit'⟩ seeds).acceptsEnd = true := by
  obtain ⟨c, hc, hf⟩ := acceptsEnd_iff.1 h
  exact acceptsEnd_iff.2 ⟨c, (visited_prefix_of_le hle).subset hc, hf⟩

/-- Raising the limit changes nothing unless the closure is cut short. -/
theorem closure_eq_of_bound_eq_none (hle : limit ≤ limit')
    (hb : (net.closure ⟨reentry, limit⟩ seeds).bound = none) :
    net.closure ⟨reentry, limit'⟩ seeds = net.closure ⟨reentry, limit⟩ seeds := by
  have ht : (Exploration.run net ⟨reentry, limit⟩ (seeds.map .ofSeed) [] .start).truncated = false := by
    simpa [closure] using hb
  have hrun := (Exploration.run_of_le hle (seeds.map .ofSeed) [] .start).2 ht
  unfold closure
  simp only [hrun, ht, Bool.false_eq_true, if_false]

/-! ### Where the limit cuts -/

theorem explored_le (net : Network σ τ) (limits : Limits) (seeds : List Configuration) :
    (net.closure limits seeds).stats.explored ≤ limits.configurations :=
  Exploration.size_run_le (Nat.zero_le _)

/-- What a closure that is cut short has explored, and what it tells about that. -/
theorem of_bound_ne_none (h : (net.closure ⟨reentry, limit⟩ seeds).bound ≠ none) :
    (net.closure ⟨reentry, limit⟩ seeds).stats.explored = limit ∧
      (net.closure ⟨reentry, limit⟩ seeds).stats.truncated = 1 ∧
      (net.closure ⟨reentry, limit⟩ seeds).bound = some ⟨limit, limit⟩ ∧
      ∀ limit', limit < limit' → limit < (net.closure ⟨reentry, limit'⟩ seeds).stats.explored := by
  have ht : (Exploration.run net ⟨reentry, limit⟩ (seeds.map .ofSeed) [] .start).truncated = true := by
    simpa [closure] using h
  obtain ⟨hsize, hmore⟩ := Exploration.of_truncated_run ht rfl (Nat.zero_le _)
  have hexplored : (net.closure ⟨reentry, limit⟩ seeds).stats.explored = limit := hsize
  have hbound : (net.closure ⟨reentry, limit⟩ seeds).bound =
      some ⟨limit, (net.closure ⟨reentry, limit⟩ seeds).stats.explored⟩ := if_pos ht
  exact ⟨hexplored, if_pos ht, by rw [hbound, hexplored], hmore⟩

theorem le_length_of_bound_ne_none {limits : Limits} (h : (net.closure limits seeds).bound ≠ none) :
    limits.configurations ≤ (net.closure limits seeds).visited.length :=
  Nat.le_of_eq (of_bound_ne_none h).1.symm

theorem completed_prefix_of_le (hle : limit ≤ limit') :
    (net.closure ⟨reentry, limit⟩ seeds).completed <+: (net.closure ⟨reentry, limit'⟩ seeds).completed := by
  have hvisited : (net.closure ⟨reentry, limit⟩ seeds).visited <+: (net.closure ⟨reentry, limit'⟩ seeds).visited :=
    visited_prefix_of_le hle
  obtain ⟨rest, hrest⟩ := hvisited
  refine ⟨rest.flatMap fun c => List.replicate (net.completions c) c, ?_⟩
  show List.flatMap _ _ ++ _ = List.flatMap _ (net.closure ⟨reentry, limit'⟩ seeds).visited
  rw [← hrest, List.flatMap_append]
  rfl

/-- All that some closure from the seeds explores, however many configurations it may explore. -/
def searchSpace (net : Network σ τ) (reentry : Nat) (seeds : List Configuration) : Set Configuration :=
  {c | ∃ limit, c ∈ (net.closure ⟨reentry, limit⟩ seeds).visited}

/-- A closure is cut short unless all of the search space may be explored. -/
theorem bound_eq_none_iff_encard_le :
    (net.closure ⟨reentry, limit⟩ seeds).bound = none ↔ (net.searchSpace reentry seeds).encard ≤ limit := by
  classical
  have hcount : ∀ n, ((net.closure ⟨reentry, n⟩ seeds).visited.toFinset : Set Configuration).encard =
      (net.closure ⟨reentry, n⟩ seeds).stats.explored := by
    intro n
    rw [Set.encard_coe_eq_coe_finsetCard, List.toFinset_card_of_nodup nodup_visited]
    rfl
  constructor
  · intro hb
    refine le_trans (Set.encard_le_encard ?_) ((hcount limit).trans_le (Nat.cast_le.2 (explored_le _ _ _)))
    rintro c ⟨n, hc⟩
    rw [List.coe_toFinset]
    rcases Nat.le_total n limit with hle | hle
    · exact (visited_prefix_of_le hle).subset hc
    · rw [closure_eq_of_bound_eq_none hle hb] at hc
      exact hc
  · intro hle
    by_contra hb
    have hmore := (of_bound_ne_none hb).2.2.2 (limit + 1) (Nat.lt_succ_self limit)
    have hsub : ((net.closure ⟨reentry, limit + 1⟩ seeds).visited.toFinset : Set Configuration) ⊆
        net.searchSpace reentry seeds := by
      intro c hc
      rw [List.coe_toFinset] at hc
      exact ⟨_, hc⟩
    have henough := (hcount (limit + 1)).symm.trans_le ((Set.encard_le_encard hsub).trans hle)
    exact Nat.not_lt.2 (Nat.cast_le.1 henough) hmore

/-- Closures from the same seeds under two limits.  The one with the lower limit is cut short just when the other one
explores more than the lower limit, or is itself cut short at that limit.  Then it has explored as many configurations
as it may, tells so, and has found the first part of what the other one finds.  Otherwise the two are the same.  A
search space that is just as large as the limit is explored without a cut. -/
theorem closure_cut_at_limit (net : Network σ τ) (reentry : Nat) (seeds : List Configuration) (hle : limit ≤ limit') :
    ((net.closure ⟨reentry, limit⟩ seeds).bound ≠ none ↔
      limit < (net.closure ⟨reentry, limit'⟩ seeds).stats.explored ∨
        limit = limit' ∧ (net.closure ⟨reentry, limit'⟩ seeds).bound ≠ none) ∧
    ((net.closure ⟨reentry, limit⟩ seeds).bound ≠ none →
      (net.closure ⟨reentry, limit⟩ seeds).stats.explored = limit ∧
      (net.closure ⟨reentry, limit⟩ seeds).stats.truncated = 1 ∧
      (net.closure ⟨reentry, limit⟩ seeds).bound = some ⟨limit, limit⟩ ∧
      (net.closure ⟨reentry, limit⟩ seeds).frontier <+: (net.closure ⟨reentry, limit'⟩ seeds).frontier ∧
      (net.closure ⟨reentry, limit⟩ seeds).completed <+: (net.closure ⟨reentry, limit'⟩ seeds).completed ∧
      (net.closure ⟨reentry, limit⟩ seeds).stats.prunedCalls ≤
        (net.closure ⟨reentry, limit'⟩ seeds).stats.prunedCalls) ∧
    ((net.closure ⟨reentry, limit⟩ seeds).bound = none →
      net.closure ⟨reentry, limit'⟩ seeds = net.closure ⟨reentry, limit⟩ seeds) ∧
    ((net.searchSpace reentry seeds).encard = limit → (net.closure ⟨reentry, limit⟩ seeds).bound = none) := by
  refine ⟨⟨fun hb => ?_, ?_⟩, fun hb => ?_, closure_eq_of_bound_eq_none hle,
    fun hspace => bound_eq_none_iff_encard_le.2 hspace.le⟩
  · rcases Nat.eq_or_lt_of_le hle with rfl | hlt
    · exact Or.inr ⟨rfl, hb⟩
    · exact Or.inl ((of_bound_ne_none hb).2.2.2 limit' hlt)
  · rintro (hmore | ⟨rfl, hb⟩)
    · intro hb
      rw [closure_eq_of_bound_eq_none hle hb] at hmore
      exact Nat.not_lt.2 (explored_le net ⟨reentry, limit⟩ seeds) hmore
    · exact hb
  · obtain ⟨hexplored, htruncated, hbound, -⟩ := of_bound_ne_none hb
    exact ⟨hexplored, htruncated, hbound, frontier_prefix_of_le hle, completed_prefix_of_le hle,
      (Exploration.run_of_le hle _ _ _).1.2⟩

/-- The looping rule has a search space of six configurations: a limit of five cuts its closure short, and a limit of
six does not. -/
theorem closure_loopingRule_cut :
    (loopingRule.closure ⟨16, 5⟩ [.initial 0]).bound = some ⟨5, 5⟩ ∧
      (loopingRule.closure ⟨16, 6⟩ [.initial 0]).bound = none ∧
      loopingRule.closure ⟨16, 7⟩ [.initial 0] = loopingRule.closure ⟨16, 6⟩ [.initial 0] := by
  have hsix : (loopingRule.closure ⟨16, 6⟩ [.initial 0]).stats.explored = 6 := by cbv
  have hseven : (loopingRule.closure ⟨16, 7⟩ [.initial 0]).stats.explored = 6 := by cbv
  obtain ⟨hcut, hreport, -⟩ := closure_cut_at_limit loopingRule 16 [.initial 0] (by decide : 5 ≤ 6)
  obtain ⟨hcut', -, hsame, -⟩ := closure_cut_at_limit loopingRule 16 [.initial 0] (by decide : 6 ≤ 7)
  have hnone : (loopingRule.closure ⟨16, 6⟩ [.initial 0]).bound = none := by
    by_contra hb
    rcases hcut'.1 hb with hmore | ⟨he, -⟩
    · omega
    · cases he
  have hfive : (loopingRule.closure ⟨16, 5⟩ [.initial 0]).bound ≠ none := hcut.2 (Or.inl (by omega))
  exact ⟨(hreport hfive).2.2.1, hnone, hsame hnone⟩

end Network

end Typeahead
