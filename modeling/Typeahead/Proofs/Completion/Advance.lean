import Typeahead.Proofs.Completion.Expectation
import Typeahead.Proofs.Completion.LongestMatch

/-!
# Configurations along a word

Scans and simulations do the same with a network: they close, step across the frontier, and close again.
`Network.advance` lists the configurations that this leads to along a word.  A scan holds the closure of these
configurations in each round of its loop (`Grammar.exists_scan_eq_scanFrom`), its best match is read off one of these
closures (`Grammar.matchedKind?_of_best`), and a simulation ends in them (`Grammar.simulateFrom_advance`).
-/

namespace Typeahead

namespace Network

variable {σ τ : Type} {net : Network σ τ} {limits : Limits}

/-- Nothing is reached from nowhere. -/
theorem visited_closure_nil : (net.closure limits []).visited = [] := by
  refine List.eq_nil_iff_forall_not_mem.2 fun c hc => ?_
  obtain ⟨seed, hseed, -⟩ := reachable_of_mem_visited hc
  cases hseed

variable [DecidableEq σ] [SymbolSet τ σ]

/-- The configurations that closures and steps reach along a word; there are none if it cannot be read. -/
def advance (net : Network σ τ) (limits : Limits) (configs : List Configuration) (w : List σ) : List Configuration :=
  w.foldl (fun configs x => net.step (net.closure limits configs).frontier x) configs

theorem advance_append (configs : List Configuration) (v w : List σ) :
    net.advance limits configs (v ++ w) = net.advance limits (net.advance limits configs v) w := List.foldl_append

theorem advance_concat (configs : List Configuration) (w : List σ) (x : σ) :
    net.advance limits configs (w ++ [x]) =
      net.step (net.closure limits (net.advance limits configs w)).frontier x :=
  advance_append configs w [x]

/-- Nothing is read from nowhere either. -/
theorem advance_nil (w : List σ) : net.advance limits [] w = [] := by
  have hfrontier : (net.closure limits []).frontier = [] := by
    refine List.eq_nil_iff_forall_not_mem.2 fun c hc => ?_
    have hvisited := (mem_frontier_iff.1 hc).1
    rw [visited_closure_nil] at hvisited
    cases hvisited
  induction w with
  | nil => rfl
  | cons x w ih =>
    rw [advance, List.foldl_cons, hfrontier]
    exact ih

/-- What begins a word that can be read can be read. -/
theorem advance_ne_nil_of_append {configs : List Configuration} {v w : List σ}
    (h : net.advance limits configs (v ++ w) ≠ []) : net.advance limits configs v ≠ [] := by
  intro hnil
  rw [advance_append, hnil, advance_nil] at h
  exact h rfl

/-- Whatever the limits, the word has been read. -/
theorem readable_of_mem_advance {configs : List Configuration} {w : List σ} {c : Configuration}
    (h : c ∈ net.advance limits configs w) : net.Readable configs w c := by
  induction w generalizing configs with
  | nil => exact ⟨c, h, .nil c⟩
  | cons x w ih => exact readable_cons_of_step (ih h)

end Network

namespace Grammar

variable {g : Grammar} {limits : Limits} {configs : List Configuration}

/-! ### Scans -/

variable {u cs : List Char} {best : Option Munch} {stats : Stats}

/-- The loop of a scan behind some characters: the frontier is that of the configurations they lead to. -/
theorem exists_scan_eq_scanFrom (g : Grammar) (limits : Limits) (u : List Char)
    (hu : g.lexical.advance limits g.tokenSeeds u ≠ [] ∨ u = []) (cs : List Char) :
    ∃ best stats, g.scan limits (u ++ cs) =
      g.scanFrom limits (g.lexical.closure limits (g.lexical.advance limits g.tokenSeeds u)).frontier u.length best
        stats cs := by
  induction u using List.reverseRecOn generalizing cs with
  | nil => exact ⟨none, _, rfl⟩
  | append_singleton u c ih =>
    have hstep : g.lexical.advance limits g.tokenSeeds (u ++ [c]) ≠ [] :=
      hu.resolve_right (List.append_ne_nil_of_right_ne_nil u (List.cons_ne_nil c []))
    obtain ⟨best, stats, h⟩ := ih (Or.inl (Network.advance_ne_nil_of_append hstep)) (c :: cs)
    rw [Network.advance_concat] at hstep
    rw [scanFrom_cons_of_ne_nil hstep, ← Network.advance_concat] at h
    rw [List.append_assoc, List.length_append]
    exact ⟨_, _, h⟩

/-- The match is read off the closure behind the characters that it covers. -/
def ReadsOff (g : Grammar) (limits : Limits) (u : List Char) (munch : Munch) : Prop :=
  munch.extra < u.length ∧ g.matchedKind? (g.lexical.closure limits
    (g.lexical.advance limits g.tokenSeeds (u.take (munch.extra + 1)))) = some munch.kind

private theorem ReadsOff.append {munch : Munch} (h : g.ReadsOff limits u munch) (cs : List Char) :
    g.ReadsOff limits (u ++ cs) munch := by
  obtain ⟨hlt, hkind⟩ := h
  unfold ReadsOff
  rw [List.length_append, List.take_append_of_le_length (Nat.succ_le_of_lt hlt)]
  exact ⟨Nat.lt_add_right _ hlt, hkind⟩

private theorem readsOff_of_best_scanFrom (hB : ∀ munch, best = some munch → g.ReadsOff limits u munch) {munch : Munch}
    (h : (g.scanFrom limits (g.lexical.closure limits (g.lexical.advance limits g.tokenSeeds u)).frontier u.length best
      stats cs).best = some munch) : g.ReadsOff limits (u ++ cs) munch := by
  induction cs generalizing u best stats with
  | nil =>
    rw [List.append_nil]
    exact hB munch h
  | cons c cs ih =>
    by_cases hs : g.lexical.step (g.lexical.closure limits (g.lexical.advance limits g.tokenSeeds u)).frontier c = []
    · rw [scanFrom_cons_of_eq_nil hs] at h
      exact (hB munch h).append _
    · rw [scanFrom_cons_of_ne_nil hs, ← Network.advance_concat] at h
      have hlen : u.length + 1 = (u ++ [c]).length := by simp
      rw [hlen] at h
      rw [List.append_cons]
      refine ih (fun munch hm => ?_) h
      split at hm
      · rename_i kind hkind
        cases hm
        refine ⟨by simp, ?_⟩
        rw [List.take_of_length_le (by simp)]
        exact hkind
      · exact (hB munch hm).append _

/-- The best match of a scan is the lowest kind that some closure completes. -/
theorem readsOff_of_best {munch : Munch} (h : (g.scan limits cs).best = some munch) :
    g.ReadsOff limits cs munch := by
  have hB : ∀ munch, none = some munch → g.ReadsOff limits [] munch := by
    intro munch hm
    cases hm
  exact readsOff_of_best_scanFrom hB h

/-! ### Simulations -/

/-- A simulation reads the tokens if the phrase network advances along their kinds. -/
theorem simulateFrom_advance (g : Grammar) (limits : Limits) {configs : List Configuration} (hne : configs ≠ [])
    (index : Nat) (tokens : List Token) :
    (∃ s, g.simulateFrom limits index configs tokens = .ok s ∧
      s.configurations = g.phrase.advance limits configs (tokens.map (·.kind)) ∧ s.configurations ≠ []) ∨
    (∃ e, g.simulateFrom limits index configs tokens = .error e) ∧
      g.phrase.advance limits configs (tokens.map (·.kind)) = [] := by
  induction tokens generalizing configs index with
  | nil => exact Or.inl ⟨_, rfl, rfl, hne⟩
  | cons x w ih =>
    by_cases hx : x.kind ∈ (g.expectation limits configs).kinds
    · rw [simulateFrom_cons_of_mem hx]
      rcases ih (mem_kinds_iff_step_ne_nil.1 hx) (index + 1) with ⟨s, hs, hconfigs⟩ | ⟨⟨e, he⟩, hnil⟩
      · rw [hs]
        exact Or.inl ⟨_, rfl, hconfigs⟩
      · rw [he]
        exact Or.inr ⟨⟨e, rfl⟩, hnil⟩
    · rw [simulateFrom_cons_of_not_mem hx]
      rw [mem_kinds_iff_step_ne_nil, not_not] at hx
      refine Or.inr ⟨⟨_, rfl⟩, ?_⟩
      rw [List.map_cons, Network.advance, List.foldl_cons, hx]
      exact Network.advance_nil _

end Grammar

end Typeahead
