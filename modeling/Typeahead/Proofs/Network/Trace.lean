import Typeahead.Proofs.Network.Exploration

/-!
# What a search explores, in its order

`Network.explored` lists what a closure explores together with the watermarks, in the order in which it is taken from
the waiting list; without the watermarks these are the explored configurations (`map_config_explored`).  Two facts carry
all proofs about a search: what holds of the seeds and is kept by each move holds of all that is explored
(`forall_explored`), and if the search is not cut short, all that it meets is explored
(`mem_visited_of_bound_eq_none`).
-/

namespace Typeahead

variable {σ τ : Type} {net : Network σ τ} {limits : Limits} {seeds : List Configuration}

namespace Exploration

/-- What `run` explores from here on, in the order of discovery. -/
def explored (net : Network σ τ) (limits : Limits) (todo later : List Pending) (found : Exploration) : List Pending :=
  match todo with
  | [] => if later = [] then [] else explored net limits later.reverse [] found
  | p :: todo =>
    if found.visited.contains p.config then explored net limits todo later found
    else if limits.configurations ≤ found.visited.size then []
    else
      p :: explored net limits todo ((net.moves limits.reentry p).reverse ++ later)
        { found with
          visited := found.visited.push p.config
          prunedCalls := found.prunedCalls + net.prunedCalls limits.reentry p }
termination_by (limits.configurations - found.visited.size, todo.length + 2 * later.length)
decreasing_by
  · have : 0 < later.length := List.length_pos_iff.2 (by assumption)
    apply Prod.Lex.right
    simp
    omega
  · apply Prod.Lex.right
    simp
  · apply Prod.Lex.left
    simp
    omega

variable {todo later : List Pending} {found : Exploration}

private theorem toList_run (net : Network σ τ) (limits : Limits) (todo later : List Pending) (found : Exploration) :
    (run net limits todo later found).visited.toList =
      found.visited.toList ++ (explored net limits todo later found).map (·.config) := by
  fun_induction explored net limits todo later found with
  | case1 found => rw [run, if_pos rfl, List.map_nil, List.append_nil]
  | case2 later found hl ih =>
    rw [List.unattach_reverse, List.unattach_attach] at ih
    rw [run, if_neg hl, ih]
  | case3 later found p todo hv ih => rw [run, if_pos hv, ih]
  | case4 later found p todo hv hs => rw [run, if_neg hv, if_pos hs, List.map_nil, List.append_nil]
  | case5 later found p todo hv hs ih =>
    rw [run, if_neg hv, if_neg hs, ih, ConfigurationSet.toList_push, List.append_assoc, List.map_cons]
    rfl

/-- What holds of all that waits and is kept by the moves of what is explored holds of all that is explored. -/
private theorem forall_explored_of_pending {E P : Pending → Prop}
    (hE : ∀ p ∈ explored net limits todo later found, E p)
    (hP : ∀ p q, E p → P p → q ∈ net.moves limits.reentry p → P q) (h : ∀ p ∈ todo ++ later, P p) :
    ∀ p ∈ explored net limits todo later found, P p := by
  fun_induction explored net limits todo later found with
  | case1 found => simp
  | case2 later found hl ih =>
    rw [List.unattach_reverse, List.unattach_attach] at ih
    exact ih hE (by simpa using h)
  | case3 later found p todo hv ih => exact ih hE fun q hq => h q (List.mem_cons_of_mem _ hq)
  | case4 later found p todo hv hs => simp
  | case5 later found p todo hv hs ih =>
    obtain ⟨hexplored, hE⟩ := List.forall_mem_cons.1 hE
    have hp := h p (List.mem_cons_self ..)
    refine List.forall_mem_cons.2 ⟨hp, ih hE fun q hq => ?_⟩
    simp only [List.mem_append, List.mem_reverse] at hq
    rcases hq with hq | hq | hq
    · exact h q (List.mem_cons_of_mem _ (List.mem_append_left _ hq))
    · exact hP p q hexplored hp hq
    · exact h q (List.mem_cons_of_mem _ (List.mem_append_right _ hq))

/-- A search that is not cut short explores all that waits, and all that the moves of what it explores lead to. -/
private theorem mem_run_of_not_truncated (h : (run net limits todo later found).truncated = false) :
    (∀ p ∈ todo ++ later, p.config ∈ (run net limits todo later found).visited.toList) ∧
      ∀ p ∈ explored net limits todo later found, ∀ q ∈ net.moves limits.reentry p,
        q.config ∈ (run net limits todo later found).visited.toList := by
  fun_induction explored net limits todo later found with
  | case1 found => simp
  | case2 later found hl ih =>
    rw [List.unattach_reverse, List.unattach_attach] at ih
    rw [run, if_neg hl] at h ⊢
    simpa using ih h
  | case3 later found p todo hv ih =>
    have hrun : run net limits (p :: todo) later found = run net limits todo later found := by rw [run, if_pos hv]
    rw [hrun] at h ⊢
    obtain ⟨hwaits, hmoves⟩ := ih h
    refine ⟨List.forall_mem_cons.2 ⟨?_, hwaits⟩, hmoves⟩
    rw [toList_run]
    exact List.mem_append_left _ ((ConfigurationSet.contains_iff_mem_toList _ _).1 hv)
  | case4 later found p todo hv hs =>
    rw [run, if_neg hv, if_pos hs] at h
    cases h
  | case5 later found p todo hv hs ih =>
    rw [run, if_neg hv, if_neg hs] at h ⊢
    obtain ⟨hwaits, hmoves⟩ := ih h
    rw [List.cons_append, List.forall_mem_cons, List.forall_mem_cons]
    refine ⟨⟨?_, fun q hq => hwaits q ?_⟩, fun q hq => hwaits q ?_, hmoves⟩
    · rw [toList_run]
      exact List.mem_append_left _ (by simp)
    · rcases List.mem_append.1 hq with hq | hq
      · exact List.mem_append_left _ hq
      · exact List.mem_append_right _ (List.mem_append_right _ hq)
    · exact List.mem_append_right _ (List.mem_append_left _ (List.mem_reverse.2 hq))

end Exploration

namespace Network

/-- What a closure explores, each configuration with the watermark that is carried with it. -/
def explored (net : Network σ τ) (limits : Limits) (seeds : List Configuration) : List Pending :=
  Exploration.explored net limits (seeds.map .ofSeed) [] .start

/-- Without the watermarks, these are the explored configurations. -/
theorem map_config_explored (net : Network σ τ) (limits : Limits) (seeds : List Configuration) :
    (net.explored limits seeds).map (·.config) = (net.closure limits seeds).visited :=
  (Exploration.toList_run net limits (seeds.map .ofSeed) [] .start).symm

theorem exists_explored {c : Configuration} (h : c ∈ (net.closure limits seeds).visited) :
    ∃ p ∈ net.explored limits seeds, p.config = c := by
  rwa [← map_config_explored, List.mem_map] at h

/-- What holds of the seeds and is kept by the moves of what is explored holds of all that is explored. -/
theorem explored_induction {P : Pending → Prop} (hseed : ∀ c ∈ seeds, P (.ofSeed c))
    (hmove : ∀ p q, p ∈ net.explored limits seeds → P p → q ∈ net.moves limits.reentry p → P q) :
    ∀ p ∈ net.explored limits seeds, P p := by
  refine Exploration.forall_explored_of_pending (fun _ hp => hp) hmove fun p hp => ?_
  rw [List.append_nil] at hp
  obtain ⟨c, hc, rfl⟩ := List.mem_map.1 hp
  exact hseed c hc

/-- What holds of the seeds and is kept by each move holds of all that is explored. -/
theorem forall_explored {P : Pending → Prop} (hseed : ∀ c ∈ seeds, P (.ofSeed c))
    (hmove : ∀ p q, P p → q ∈ net.moves limits.reentry p → P q) : ∀ p ∈ net.explored limits seeds, P p :=
  explored_induction hseed fun p q _ => hmove p q

/-- No frame is exempt in a search that begins without open invocations. -/
theorem watermark_eq_zero (h : ∀ c ∈ seeds, c.stack = []) : ∀ p ∈ net.explored limits seeds, p.watermark = 0 := by
  refine forall_explored (fun c hc => ?_) fun p q hp hq => ?_
  · rw [Pending.ofSeed, h c hc]
    rfl
  · obtain ⟨t, -, hq⟩ := List.mem_filterMap.1 hq
    cases t with
    | epsilon target =>
      cases hq
      exact hp
    | consume label target => cases hq
    | call rule follow =>
      simp only [move?] at hq
      split at hq
      · cases hq
      · obtain ⟨start, -, rfl⟩ := Option.map_eq_some_iff.1 hq
        exact hp
    | leave =>
      simp only [move?] at hq
      split at hq
      · cases hq
      · cases hq
        rw [hp, Nat.zero_min]

/-- A closure that is not cut short explores its seeds and all that the moves of what it explores lead to. -/
theorem mem_visited_of_bound_eq_none (hb : (net.closure limits seeds).bound = none) :
    (∀ c ∈ seeds, c ∈ (net.closure limits seeds).visited) ∧
      ∀ p ∈ net.explored limits seeds, ∀ q ∈ net.moves limits.reentry p,
        q.config ∈ (net.closure limits seeds).visited := by
  have ht : (Exploration.run net limits (seeds.map .ofSeed) [] .start).truncated = false := by
    simpa [closure] using hb
  obtain ⟨hseeds, hmoves⟩ := Exploration.mem_run_of_not_truncated ht
  exact ⟨fun c hc => hseeds (.ofSeed c) (List.mem_append_left _ (List.mem_map_of_mem hc)), hmoves⟩

end Network

end Typeahead
