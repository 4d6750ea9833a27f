import Mathlib.Data.Set.Card
import Typeahead.Proofs.Network.Reachability

/-!
# What a closure explores

The search keeps an invariant: explored and waiting configurations are reachable, and as long as no call has been
pruned every seed and every move of an explored configuration is explored or waiting (`Exploration.Invariant`).
Hence a closure explores reachable configurations only, none of them twice, and all of them when it is exhaustive
(`mem_visited_iff_of_exhaustive`).
-/

namespace Typeahead

variable {σ τ : Type} {net : Network σ τ}

namespace Exploration

/-- Explored or waiting to be explored. -/
def Covers (found : Exploration) (pending : List Pending) (c : Configuration) : Prop :=
  c ∈ found.visited.toList ∨ ∃ p ∈ pending, p.config = c

/-- What holds throughout a search from `seeds`, whatever the order of the waiting configurations. -/
structure Invariant (net : Network σ τ) (seeds : List Configuration) (pending : List Pending)
    (found : Exploration) : Prop where
  visited_reachable : ∀ c ∈ found.visited.toList, net.Reachable seeds c
  pending_reachable : ∀ p ∈ pending, net.Reachable seeds p.config
  nodup : found.visited.toList.Nodup
  covers_seeds : ∀ c ∈ seeds, found.Covers pending c
  covers_moves : found.prunedCalls = 0 → ∀ c ∈ found.visited.toList, ∀ c', net.Move c c' → found.Covers pending c'

variable {seeds : List Configuration} {pending : List Pending} {found : Exploration}

private theorem Covers.mono {found' : Exploration} {pending' : List Pending} {c : Configuration}
    (h : found.Covers pending c) (hv : ∀ c ∈ found.visited.toList, c ∈ found'.visited.toList)
    (hp : ∀ p ∈ pending, found'.Covers pending' p.config) : found'.Covers pending' c := by
  rcases h with h | ⟨p, hm, rfl⟩
  · exact Or.inl (hv c h)
  · exact hp p hm

private theorem Covers.of_mem {p : Pending} (h : p ∈ pending) : found.Covers pending p.config :=
  Or.inr ⟨p, h, rfl⟩

/-- Only the members of the waiting list count. -/
private theorem Invariant.congr {pending' : List Pending} (h : Invariant net seeds pending found)
    (hp : ∀ p, p ∈ pending ↔ p ∈ pending') : Invariant net seeds pending' found := by
  have hc : ∀ c, found.Covers pending c → found.Covers pending' c := fun c hc =>
    hc.mono (fun _ hx => hx) fun p hm => Covers.of_mem ((hp p).1 hm)
  refine ⟨h.visited_reachable, ?_, h.nodup, ?_, ?_⟩
  · intro p hm
    exact h.pending_reachable p ((hp p).2 hm)
  · intro c hs
    exact hc c (h.covers_seeds c hs)
  · intro hn c hv c' hm
    exact hc c' (h.covers_moves hn c hv c' hm)

private theorem Invariant.start : Invariant net seeds (seeds.map .ofSeed) start := by
  refine ⟨by simp [Exploration.start], ?_, by simp [Exploration.start], ?_, by simp [Exploration.start]⟩
  · intro p hp
    obtain ⟨c, hc, rfl⟩ := List.mem_map.1 hp
    exact ⟨c, hc, .refl⟩
  · intro c hc
    exact Or.inr ⟨_, List.mem_map_of_mem hc, rfl⟩

/-- A configuration that has been explored already need not wait. -/
private theorem Invariant.skip {p : Pending} (h : Invariant net seeds (p :: pending) found)
    (hp : p.config ∈ found.visited.toList) : Invariant net seeds pending found := by
  have hc : ∀ c, found.Covers (p :: pending) c → found.Covers pending c := by
    intro c hc
    refine hc.mono (fun _ hx => hx) fun q hq => ?_
    rcases List.mem_cons.1 hq with rfl | hq
    · exact Or.inl hp
    · exact Covers.of_mem hq
  refine ⟨h.visited_reachable, fun q hq => h.pending_reachable q (List.mem_cons_of_mem _ hq), h.nodup, ?_, ?_⟩
  · intro c hs
    exact hc c (h.covers_seeds c hs)
  · intro hn c hv c' hm
    exact hc c' (h.covers_moves hn c hv c' hm)

/-- Exploring a new configuration puts its moves on the waiting list. -/
private theorem Invariant.explore {p : Pending} {reentry : Nat} (h : Invariant net seeds (p :: pending) found)
    (hp : p.config ∉ found.visited.toList) :
    Invariant net seeds (net.moves reentry p ++ pending)
      { found with
        visited := found.visited.push p.config
        prunedCalls := found.prunedCalls + net.prunedCalls reentry p } := by
  have hr := h.pending_reachable p (List.mem_cons_self ..)
  have hc : ∀ c, found.Covers (p :: pending) c →
      Covers { found with
        visited := found.visited.push p.config
        prunedCalls := found.prunedCalls + net.prunedCalls reentry p } (net.moves reentry p ++ pending) c := by
    intro c hc
    refine hc.mono (fun x hx => by simp [hx]) fun q hq => ?_
    rcases List.mem_cons.1 hq with rfl | hq
    · exact Or.inl (by simp)
    · exact Covers.of_mem (List.mem_append_right _ hq)
  refine ⟨?_, ?_, ?_, ?_, ?_⟩
  · intro c hv
    rw [ConfigurationSet.toList_push, List.mem_append, List.mem_singleton] at hv
    rcases hv with hv | rfl
    · exact h.visited_reachable c hv
    · exact hr
  · intro q hq
    rcases List.mem_append.1 hq with hq | hq
    · obtain ⟨seed, hs, hm⟩ := hr
      exact ⟨seed, hs, hm.tail (Network.move_of_mem_moves hq)⟩
    · exact h.pending_reachable q (List.mem_cons_of_mem _ hq)
  · rw [ConfigurationSet.toList_push, List.nodup_append]
    refine ⟨h.nodup, by simp, ?_⟩
    intro a ha b hb hab
    rw [List.mem_singleton] at hb
    subst hb hab
    exact hp ha
  · intro c hs
    exact hc c (h.covers_seeds c hs)
  · intro hn c hv c' hm
    obtain ⟨hn, hnp⟩ := Nat.add_eq_zero_iff.1 hn
    rw [ConfigurationSet.toList_push, List.mem_append, List.mem_singleton] at hv
    rcases hv with hv | rfl
    · exact hc c' (h.covers_moves hn c hv c' hm)
    · obtain ⟨q, hq, rfl⟩ := Network.exists_mem_moves hnp hm
      exact Covers.of_mem (List.mem_append_left _ hq)

/-- The invariant holds when the search ends, and then nothing waits unless the search was cut short. -/
private theorem exists_invariant_run {limits : Limits} {todo later : List Pending}
    (h : Invariant net seeds (todo ++ later) found) :
    ∃ rest, Invariant net seeds rest (run net limits todo later found) ∧
      ((run net limits todo later found).truncated = false → rest = []) := by
  -- all that waits is `todo ++ later`, so turning the queue over changes its order only
  fun_induction run net limits todo later found with
  | case1 found => exact ⟨[], h, fun _ => rfl⟩
  | case2 later found hl ih =>
    rw [List.unattach_reverse, List.unattach_attach] at ih
    exact ih (h.congr (by simp))
  | case3 later found p todo hv ih =>
    rw [ConfigurationSet.contains_iff_mem_toList] at hv
    exact ih (h.skip hv)
  -- the limit is reached with `p` still waiting
  | case4 later found p todo hv hs =>
    refine ⟨p :: todo ++ later, ?_, by simp⟩
    exact ⟨h.visited_reachable, h.pending_reachable, h.nodup, h.covers_seeds, h.covers_moves⟩
  | case5 later found p todo hv hs ih =>
    rw [ConfigurationSet.contains_iff_mem_toList] at hv
    rw [List.cons_append] at h
    refine ih ((h.explore hv).congr fun q => ?_)
    simp only [List.mem_append, List.mem_reverse]
    exact or_left_comm

/-- The search of a closure. -/
private theorem exists_invariant_run_start (net : Network σ τ) (limits : Limits) (seeds : List Configuration) :
    ∃ rest, Invariant net seeds rest (run net limits (seeds.map .ofSeed) [] .start) ∧
      ((run net limits (seeds.map .ofSeed) [] .start).truncated = false → rest = []) := by
  apply exists_invariant_run
  rw [List.append_nil]
  exact Invariant.start

end Exploration

namespace Network

variable {limits : Limits} {seeds : List Configuration}

/-- Only reachable configurations are explored. -/
theorem reachable_of_mem_visited {c : Configuration} (h : c ∈ (net.closure limits seeds).visited) :
    net.Reachable seeds c := by
  obtain ⟨rest, hi, -⟩ := Exploration.exists_invariant_run_start net limits seeds
  exact hi.visited_reachable c h

/-- No configuration is explored twice. -/
theorem nodup_visited : (net.closure limits seeds).visited.Nodup := by
  obtain ⟨rest, hi, -⟩ := Exploration.exists_invariant_run_start net limits seeds
  exact hi.nodup

/-- An exhaustive closure explores exactly what is reachable. -/
theorem mem_visited_iff_of_exhaustive (h : (net.closure limits seeds).Exhaustive) {c : Configuration} :
    c ∈ (net.closure limits seeds).visited ↔ net.Reachable seeds c := by
  refine ⟨reachable_of_mem_visited, ?_⟩
  rintro ⟨seed, hs, hm⟩
  obtain ⟨rest, hi, hrest⟩ := Exploration.exists_invariant_run_start net limits seeds
  obtain ⟨hp, hb⟩ := h
  have ht : (Exploration.run net limits (seeds.map .ofSeed) [] .start).truncated = false := by
    simpa [closure] using hb
  obtain rfl := hrest ht
  -- nothing waits, so the explored configurations are closed under moves
  have hv : ∀ {c}, Exploration.Covers (Exploration.run net limits (seeds.map .ofSeed) [] .start) [] c →
      c ∈ (net.closure limits seeds).visited := by
    rintro c (hc | ⟨p, hp, _⟩)
    · exact hc
    · cases hp
  induction hm with
  | refl => exact hv (hi.covers_seeds seed hs)
  | tail _ hm ih => exact hv (hi.covers_moves hp _ ih _ hm)

theorem mem_frontier_iff {c : Configuration} :
    c ∈ (net.closure limits seeds).frontier ↔
      c ∈ (net.closure limits seeds).visited ∧ net.CanConsume c.state := by
  rw [← consumesAt_iff]
  exact List.mem_filter

theorem mem_completed_iff {c : Configuration} :
    c ∈ (net.closure limits seeds).completed ↔ c ∈ (net.closure limits seeds).visited ∧ net.CanFinish c := by
  have h : c ∈ (net.closure limits seeds).completed ↔
      ∃ c' ∈ (net.closure limits seeds).visited, c ∈ List.replicate (net.completions c') c' := List.mem_flatMap
  rw [h, ← completions_pos_iff, Nat.pos_iff_ne_zero]
  constructor
  · rintro ⟨c', hv, hc⟩
    obtain ⟨hn, rfl⟩ := List.mem_replicate.1 hc
    exact ⟨hv, hn⟩
  · rintro ⟨hv, hn⟩
    exact ⟨c, hv, List.mem_replicate.2 ⟨hn, rfl⟩⟩

theorem acceptsEnd_iff :
    (net.closure limits seeds).acceptsEnd = true ↔
      ∃ c ∈ (net.closure limits seeds).visited, net.CanFinish c := by
  unfold Closure.acceptsEnd
  rw [Bool.not_eq_true', List.isEmpty_eq_false_iff_exists_mem]
  exact exists_congr fun c => mem_completed_iff

/-- The number of explored configurations is that of all reachable ones. -/
private theorem encard_reachable (h : (net.closure limits seeds).Exhaustive) :
    {c | net.Reachable seeds c}.encard = (net.closure limits seeds).stats.explored := by
  classical
  have he : {c | net.Reachable seeds c} = ((net.closure limits seeds).visited.toFinset : Set Configuration) := by
    ext c
    simp [mem_visited_iff_of_exhaustive h]
  rw [he, Set.encard_coe_eq_coe_finsetCard, List.toFinset_card_of_nodup nodup_visited]
  rfl

/-- A closure finds reachable configurations only and lists none of its frontier twice, whatever its limits.  If it
is exhaustive, it finds all of them, and it has explored each of them once. -/
theorem closure_exact (net : Network σ τ) (limits : Limits) (seeds : List Configuration) :
    (∀ c ∈ (net.closure limits seeds).frontier, net.Reachable seeds c ∧ net.CanConsume c.state) ∧
    (∀ c ∈ (net.closure limits seeds).completed, net.Reachable seeds c ∧ net.CanFinish c) ∧
    (net.closure limits seeds).frontier.Nodup ∧
    ((net.closure limits seeds).Exhaustive →
      (∀ c, c ∈ (net.closure limits seeds).frontier ↔ net.Reachable seeds c ∧ net.CanConsume c.state) ∧
      (∀ c, c ∈ (net.closure limits seeds).completed ↔ net.Reachable seeds c ∧ net.CanFinish c) ∧
      {c | net.Reachable seeds c}.encard = (net.closure limits seeds).stats.explored) := by
  refine ⟨?_, ?_, nodup_visited.filter _, ?_⟩
  · intro c hc
    obtain ⟨hv, hs⟩ := mem_frontier_iff.1 hc
    exact ⟨reachable_of_mem_visited hv, hs⟩
  · intro c hc
    obtain ⟨hv, hs⟩ := mem_completed_iff.1 hc
    exact ⟨reachable_of_mem_visited hv, hs⟩
  · intro h
    refine ⟨fun c => ?_, fun c => ?_, encard_reachable h⟩
    · rw [mem_frontier_iff, mem_visited_iff_of_exhaustive h]
    · rw [mem_completed_iff, mem_visited_iff_of_exhaustive h]

/-- A rule that loops around a call of another rule, and can also be left at once. -/
def loopingRule : Network Nat (List Nat) :=
  { states := #[⟨0, 0, .ruleStart, [.epsilon 2]⟩, ⟨1, 0, .ruleStop, [.leave]⟩,
      ⟨2, 0, .loop, [.epsilon 0, .call 1 5, .epsilon 1]⟩, ⟨3, 1, .ruleStart, [.epsilon 4, .consume (.symbol 7) 4]⟩,
      ⟨4, 1, .ruleStop, [.leave]⟩, ⟨5, 0, .basic, [.consume (.symbol 8) 1, .epsilon 2]⟩]
    rules := #[⟨"outer", 0, 1⟩, ⟨"inner", 3, 4⟩] }

/-- The six configurations that the looping rule reaches are all explored. -/
theorem encard_reachable_loopingRule :
    (loopingRule.closure {} [.initial 0]).Exhaustive ∧ {c | loopingRule.Reachable [.initial 0] c}.encard = 6 := by
  have he : (loopingRule.closure {} [.initial 0]).Exhaustive := ⟨by cbv, by cbv⟩
  have hn : (loopingRule.closure {} [.initial 0]).stats.explored = 6 := by cbv
  obtain ⟨-, -, -, hexact⟩ := closure_exact loopingRule {} [.initial 0]
  refine ⟨he, ?_⟩
  rw [(hexact he).2.2, hn]
  rfl

/-! ### Reading across closures -/

variable [DecidableEq σ] [SymbolSet τ σ] {x : σ} {w : List σ} {c : Configuration}

/-- What is read after a step across the frontier is read from the seeds. -/
theorem readable_cons_of_step (h : net.Readable (net.step (net.closure limits seeds).frontier x) w c) :
    net.Readable seeds (x :: w) c := by
  obtain ⟨c₂, hc₂, hr⟩ := h
  obtain ⟨c₁, hc₁, hx⟩ := mem_step_iff.1 hc₂
  obtain ⟨seed, hs, hm⟩ := reachable_of_mem_visited (mem_frontier_iff.1 hc₁).1
  exact ⟨seed, hs, .cons hm hx hr⟩

/-- If the closure is exhaustive, there is no other way to read. -/
theorem readable_cons_iff (he : (net.closure limits seeds).Exhaustive) :
    net.Readable seeds (x :: w) c ↔ net.Readable (net.step (net.closure limits seeds).frontier x) w c := by
  refine ⟨?_, readable_cons_of_step⟩
  rintro ⟨seed, hs, hr⟩
  cases hr with
  | cons hm hx hr =>
    refine ⟨_, mem_step_iff.2 ⟨_, ?_, hx⟩, hr⟩
    rw [mem_frontier_iff, mem_visited_iff_of_exhaustive he]
    cases hx with
    | mk h => exact ⟨⟨seed, hs, hm⟩, _, _, h⟩

end Network

end Typeahead
