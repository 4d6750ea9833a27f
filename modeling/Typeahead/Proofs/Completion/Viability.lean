import Mathlib
import Typeahead.Proofs.Completion.Expectation
import Typeahead.Proofs.Grammar.Declared

/-!
# Simulations read viable texts

The phrase rules of a grammar, as they are written, tell which lists of token kinds are viable.  Whatever the limits, a
text that is simulated is viable and so is each expected continuation; if no closure of the run is cut short, nothing
viable is missed (`simulate_exact`).
-/

namespace Typeahead

namespace Declarations

/-- Some leftmost expansion of the start rule, as it is written, yields the kinds followed by whatever remains. -/
def Viable (d : Declarations) (w : List TokenKind) : Prop :=
  ∃ start, d.start = some start ∧ d.phraseSystem.Viable [.ref start] w

/-- The start rule, as it is written, derives exactly the kinds. -/
def Derives (d : Declarations) (w : List TokenKind) : Prop :=
  ∃ start, d.start = some start ∧ d.phraseSystem.Derives [.ref start] w

theorem Viable.of_append {d : Declarations} {u v : List TokenKind} (h : d.Viable (u ++ v)) : d.Viable u := by
  obtain ⟨start, hs, h⟩ := h
  exact ⟨start, hs, RuleSystem.Viable.of_append h⟩

theorem Viable.take {d : Declarations} {w : List TokenKind} (h : d.Viable w) (i : Nat) : d.Viable (w.take i) := by
  rw [← List.take_append_drop i w] at h
  exact h.of_append

end Declarations

namespace Grammar

variable {g : Grammar} {limits : Limits} {configs : List Configuration} {index : Nat} {x : Token} {w : List Token}
  {s : Simulation} {e : NoViableParse}

/-! ### The closures of a run -/

/-- The closures that a simulation looks at, one for each token that it tries to read. -/
def closuresFrom (g : Grammar) (limits : Limits) (configs : List Configuration) : List Token → List Closure
  | [] => []
  | token :: tokens =>
    let reached := g.phrase.closure limits configs
    match g.phrase.step reached.frontier token.kind with
    | [] => [reached]
    | next => reached :: closuresFrom g limits next tokens

/-- The closures that a simulation from the start rule looks at. -/
def closures (g : Grammar) (limits : Limits) (tokens : List Token) : List Closure :=
  g.closuresFrom limits g.phraseSeeds tokens

private theorem closuresFrom_cons_of_mem (h : x.kind ∈ (g.expectation limits configs).kinds) :
    g.closuresFrom limits configs (x :: w) = g.phrase.closure limits configs ::
      g.closuresFrom limits (g.phrase.step (g.phrase.closure limits configs).frontier x.kind) w := by
  rw [mem_kinds_iff_step_ne_nil] at h
  rw [closuresFrom]
  split
  · contradiction
  · rfl

private theorem closuresFrom_cons_of_not_mem (h : x.kind ∉ (g.expectation limits configs).kinds) :
    g.closuresFrom limits configs (x :: w) = [g.phrase.closure limits configs] := by
  rw [mem_kinds_iff_step_ne_nil, not_not] at h
  rw [closuresFrom, h]

/-- The counters of a simulation tell whether one of its closures was cut short. -/
theorem exhaustive_closures_iff (h : g.simulateFrom limits index configs w = .ok s) :
    (∀ reached ∈ g.closuresFrom limits configs w, reached.Exhaustive) ↔ s.stats.Complete := by
  induction w generalizing index configs s with
  | nil =>
    cases h
    simp [closuresFrom, Stats.Complete]
  | cons x w ih =>
    by_cases hx : x.kind ∈ (g.expectation limits configs).kinds
    · rw [simulateFrom_cons_of_mem hx] at h
      obtain ⟨s', hs, rfl⟩ := except_map_eq_ok.1 h
      rw [closuresFrom_cons_of_mem hx, List.forall_mem_cons, ih hs, Network.exhaustive_closure_iff,
        Stats.complete_add_iff]
    · rw [simulateFrom_cons_of_not_mem hx] at h
      cases h

/-! ### What is read -/

private theorem step_ne_nil (h : x.kind ∈ (g.expectation limits configs).kinds) :
    g.phrase.step (g.phrase.closure limits configs).frontier x.kind ≠ [] :=
  mem_kinds_iff_step_ne_nil.1 h

/-- The configurations of a simulation have read the text, and there are some. -/
theorem readable_of_simulateFrom (h : g.simulateFrom limits index configs w = .ok s) :
    (∀ c ∈ s.configurations, g.phrase.Readable configs (w.map (·.kind)) c) ∧
      (configs ≠ [] → s.configurations ≠ []) := by
  induction w generalizing index configs s with
  | nil =>
    cases h
    exact ⟨fun c hc => ⟨c, hc, .nil c⟩, id⟩
  | cons x w ih =>
    by_cases hx : x.kind ∈ (g.expectation limits configs).kinds
    · rw [simulateFrom_cons_of_mem hx] at h
      obtain ⟨s', hs, rfl⟩ := except_map_eq_ok.1 h
      obtain ⟨hr, hne⟩ := ih hs
      exact ⟨fun c hc => Network.readable_cons_of_step (hr c hc), fun _ => hne (step_ne_nil hx)⟩
    · rw [simulateFrom_cons_of_not_mem hx] at h
      cases h

/-- If its closures are exhaustive, a simulation reaches all configurations that have read the text. -/
theorem mem_configurations_iff (h : g.simulateFrom limits index configs w = .ok s)
    (he : ∀ reached ∈ g.closuresFrom limits configs w, reached.Exhaustive) {c : Configuration} :
    c ∈ s.configurations ↔ g.phrase.Readable configs (w.map (·.kind)) c := by
  refine ⟨(readable_of_simulateFrom h).1 c, fun hc => ?_⟩
  induction w generalizing index configs s with
  | nil =>
    cases h
    obtain ⟨seed, hs, hr⟩ := hc
    cases hr
    exact hs
  | cons x w ih =>
    by_cases hx : x.kind ∈ (g.expectation limits configs).kinds
    · rw [simulateFrom_cons_of_mem hx] at h
      obtain ⟨s', hs, rfl⟩ := except_map_eq_ok.1 h
      rw [closuresFrom_cons_of_mem hx, List.forall_mem_cons] at he
      exact ih (s := s') hs he.2 ((Network.readable_cons_iff he.1).1 hc)
    · rw [simulateFrom_cons_of_not_mem hx] at h
      cases h

/-- A simulation fails at a token that cannot be read, unless a closure was cut short, after tokens that can. -/
theorem exists_index_of_error (h : g.simulateFrom limits index configs w = .error e) (hne : configs ≠ [])
    (he : ∀ reached ∈ g.closuresFrom limits configs w, reached.Exhaustive) :
    ∃ i < w.length, e.index = index + i ∧ (∃ c, g.phrase.Readable configs ((w.map (·.kind)).take i) c) ∧
      ¬ ∃ c, g.phrase.Readable configs ((w.map (·.kind)).take (i + 1)) c := by
  induction w generalizing index configs with
  | nil => cases h
  | cons x w ih =>
    by_cases hx : x.kind ∈ (g.expectation limits configs).kinds
    · rw [simulateFrom_cons_of_mem hx, except_map_eq_error] at h
      rw [closuresFrom_cons_of_mem hx, List.forall_mem_cons] at he
      -- one token further on than in the run behind `x`
      obtain ⟨i, hi, hindex, ⟨c, hc⟩, hn⟩ := ih h (step_ne_nil hx) he.2
      refine ⟨i + 1, by simpa using hi, by omega, ⟨c, Network.readable_cons_of_step hc⟩, ?_⟩
      rintro ⟨c, hc⟩
      exact hn ⟨c, (Network.readable_cons_iff he.1).1 hc⟩
    · rw [simulateFrom_cons_of_not_mem hx] at h
      rw [closuresFrom_cons_of_not_mem hx, List.forall_mem_singleton] at he
      cases h
      obtain ⟨c, hc⟩ := List.exists_mem_of_ne_nil configs hne
      refine ⟨0, by simp, rfl, ⟨c, c, hc, .nil c⟩, ?_⟩
      rintro ⟨c, hc⟩
      rw [mem_kinds_iff_step_ne_nil, not_not] at hx
      obtain ⟨c', hc', -⟩ := (Network.readable_cons_iff he).1 hc
      rw [hx] at hc'
      cases hc'

/-! ### What is expected -/

/-- An expected kind is read after what the configurations have read. -/
theorem exists_readable_of_mem_kinds {seeds : List Configuration} {u : List TokenKind} {kind : TokenKind}
    (hr : ∀ c ∈ configs, g.phrase.Readable seeds u c) (h : kind ∈ (g.expectation limits configs).kinds) :
    ∃ c, g.phrase.Readable seeds (u ++ [kind]) c := by
  obtain ⟨c₁, hc₁, c₂, hx⟩ := mem_kinds_iff.1 h
  obtain ⟨c, hc, hm⟩ := Network.reachable_of_mem_visited (Network.mem_frontier_iff.1 hc₁).1
  obtain ⟨seed, hs, hu⟩ := hr c hc
  exact ⟨c₂, seed, hs, Network.reads_append_iff.2 ⟨c, hu, .cons hm hx (.nil c₂)⟩⟩

/-- If the closure is exhaustive and no configuration is missing, all kinds that can be read are expected. -/
theorem mem_kinds_of_readable {seeds : List Configuration} {u : List TokenKind} {kind : TokenKind}
    (hr : ∀ c, g.phrase.Readable seeds u c → c ∈ configs) (he : (g.phrase.closure limits configs).Exhaustive)
    {c : Configuration} (h : g.phrase.Readable seeds (u ++ [kind]) c) :
    kind ∈ (g.expectation limits configs).kinds := by
  obtain ⟨seed, hs, h⟩ := h
  obtain ⟨m, hu, hk⟩ := Network.reads_append_iff.1 h
  cases hk with
  | cons hm hx _ =>
    refine mem_kinds_iff.2 ⟨_, ?_, _, hx⟩
    rw [Network.mem_frontier_iff, Network.mem_visited_iff_of_exhaustive he]
    cases hx with
    | mk h => exact ⟨⟨m, hr m ⟨seed, hs, hu⟩, hm⟩, _, _, h⟩

/-! ### Against the rules as they are written -/

variable {d : Declarations}

/-- Nothing has been read in the start state of the start rule. -/
theorem phraseSeeds_eq (hg : d.Built g) : g.phraseSeeds = [.initial (2 * g.startRule)] := by
  obtain ⟨name, hname, hrule⟩ := hg.start
  unfold phraseSeeds
  rw [(hg.phrase_reads hrule).1]
  rfl

private theorem phraseSeeds_ne_nil (hb : d.build = .ok g) : g.phraseSeeds ≠ [] := by
  rw [phraseSeeds_eq (Declarations.built_of_build hb)]
  exact List.cons_ne_nil _ _

/-- The texts that can be read from the start rule, and those after which it finishes. -/
private theorem readable_phraseSeeds (hb : d.build = .ok g) (u : List TokenKind) :
    ((∃ c, g.phrase.Readable g.phraseSeeds u c) ↔ d.Viable u) ∧
      ((∃ m c, g.phrase.Readable g.phraseSeeds u m ∧ g.phrase.Reaches m c ∧ g.phrase.CanFinish c) ↔ d.Derives u) := by
  have hg := Declarations.built_of_build hb
  obtain ⟨name, hname, hrule⟩ := hg.start
  obtain ⟨-, hreads⟩ := hg.phrase_reads hrule
  have hread : ∀ c, g.phrase.Readable g.phraseSeeds u c ↔ g.phrase.Reads (.initial (2 * g.startRule)) u c := by
    intro c
    rw [phraseSeeds_eq hg, Network.Readable]
    simp
  unfold Declarations.Viable Declarations.Derives
  simp only [hread, hname, Option.some.injEq, exists_eq_left']
  exact hreads u

/-- Whatever the limits, only viable texts are read and expected. -/
theorem viable_of_simulate (hb : d.build = .ok g) (h : g.simulate limits w = .ok s) :
    d.Viable (w.map (·.kind)) ∧ ∀ limits',
      (∀ kind ∈ (g.expectation limits' s.configurations).kinds, d.Viable (w.map (·.kind) ++ [kind])) ∧
      ((g.expectation limits' s.configurations).acceptsEnd = true → d.Derives (w.map (·.kind))) := by
  obtain ⟨hr, hs⟩ := readable_of_simulateFrom h
  obtain ⟨c, hc⟩ := List.exists_mem_of_ne_nil _ (hs (phraseSeeds_ne_nil hb))
  refine ⟨(readable_phraseSeeds hb _).1.1 ⟨c, hr c hc⟩, fun limits' => ⟨fun kind hk => ?_, fun hend => ?_⟩⟩
  · exact (readable_phraseSeeds hb _).1.1 (exists_readable_of_mem_kinds hr hk)
  · obtain ⟨c', hv, hf⟩ := Network.acceptsEnd_iff.1 hend
    obtain ⟨m, hm, hreach⟩ := Network.reachable_of_mem_visited hv
    exact (readable_phraseSeeds hb _).2.1 ⟨m, c', hr m hm, hreach, hf⟩

/-- An exhaustive run fails behind a viable text, at a token that makes it unviable. -/
private theorem not_viable_of_error (hb : d.build = .ok g) (h : g.simulate limits w = .error e)
    (he : ∀ reached ∈ g.closures limits w, reached.Exhaustive) :
    e.index < w.length ∧ ¬ d.Viable ((w.map (·.kind)).take (e.index + 1)) ∧
      ∀ j ≤ e.index, d.Viable ((w.map (·.kind)).take j) := by
  obtain ⟨i, hi, hindex, hv, hn⟩ := exists_index_of_error h (phraseSeeds_ne_nil hb) he
  rw [Nat.zero_add] at hindex
  rw [hindex]
  refine ⟨hi, fun hv => hn ((readable_phraseSeeds hb _).1.2 hv), fun j hj => ?_⟩
  have htake := ((readable_phraseSeeds hb _).1.1 hv).take j
  rwa [List.take_take, Nat.min_eq_left hj] at htake

/-- An exhaustive run fails at the end of the shortest beginning that is not viable. -/
theorem error_index_iff (hb : d.build = .ok g) (he : ∀ reached ∈ g.closures limits w, reached.Exhaustive) {i : Nat} :
    (∃ e, g.simulate limits w = .error e ∧ e.index = i) ↔
      i < w.length ∧ ¬ d.Viable ((w.map (·.kind)).take (i + 1)) ∧ ∀ j ≤ i, d.Viable ((w.map (·.kind)).take j) := by
  constructor
  · rintro ⟨e, h, rfl⟩
    exact not_viable_of_error hb h he
  · rintro ⟨hi, hn, hv⟩
    cases h : g.simulate limits w with
    | ok s => exact absurd ((viable_of_simulate hb h).1.take (i + 1)) hn
    | error e =>
      obtain ⟨-, hn', hv'⟩ := not_viable_of_error hb h he
      -- at any other place one of the two beginnings would be viable and not viable
      refine ⟨e, rfl, ?_⟩
      rcases Nat.lt_trichotomy e.index i with hlt | heq | hlt
      · exact absurd (hv (e.index + 1) hlt) hn'
      · exact heq
      · exact absurd (hv' (i + 1) hlt) hn

/-- An exhaustive run expects every viable continuation. -/
theorem mem_kinds_iff_viable (hb : d.build = .ok g) (h : g.simulate limits w = .ok s)
    (he : ∀ reached ∈ g.closures limits w, reached.Exhaustive) {limits' : Limits}
    (hl : (g.phrase.closure limits' s.configurations).Exhaustive) {kind : TokenKind} :
    kind ∈ (g.expectation limits' s.configurations).kinds ↔ d.Viable (w.map (·.kind) ++ [kind]) := by
  refine ⟨((viable_of_simulate hb h).2 limits').1 kind, fun hv => ?_⟩
  obtain ⟨c, hc⟩ := (readable_phraseSeeds hb _).1.2 hv
  exact mem_kinds_of_readable (fun c hc => (mem_configurations_iff h he).2 hc) hl hc

theorem acceptsEnd_iff_derives (hb : d.build = .ok g) (h : g.simulate limits w = .ok s)
    (he : ∀ reached ∈ g.closures limits w, reached.Exhaustive) {limits' : Limits}
    (hl : (g.phrase.closure limits' s.configurations).Exhaustive) :
    (g.expectation limits' s.configurations).acceptsEnd = true ↔ d.Derives (w.map (·.kind)) := by
  refine ⟨((viable_of_simulate hb h).2 limits').2, fun hd => ?_⟩
  obtain ⟨m, c, hm, hreach, hf⟩ := (readable_phraseSeeds hb _).2.2 hd
  refine Network.acceptsEnd_iff.2 ⟨c, ?_, hf⟩
  rw [Network.mem_visited_iff_of_exhaustive hl]
  exact ⟨m, (mem_configurations_iff h he).2 hm, hreach⟩

/-- The simulation and the expectations of a built grammar, compared with the phrase rules as they are written: nothing
but viable texts is read or expected, and nothing viable is missed unless a closure is cut short. -/
theorem simulate_exact (hb : d.build = .ok g) (limits : Limits) (tokens : List Token) :
    (∀ s, g.simulate limits tokens = .ok s →
      d.Viable (tokens.map (·.kind)) ∧ ∀ limits',
        (∀ kind ∈ (g.expectation limits' s.configurations).kinds, d.Viable (tokens.map (·.kind) ++ [kind])) ∧
        ((g.expectation limits' s.configurations).acceptsEnd = true → d.Derives (tokens.map (·.kind)))) ∧
    ((∀ reached ∈ g.closures limits tokens, reached.Exhaustive) →
      (∀ i, (∃ e, g.simulate limits tokens = .error e ∧ e.index = i) ↔
        i < tokens.length ∧ ¬ d.Viable ((tokens.map (·.kind)).take (i + 1)) ∧
          ∀ j ≤ i, d.Viable ((tokens.map (·.kind)).take j)) ∧
      ∀ s, g.simulate limits tokens = .ok s → ∀ limits', (g.phrase.closure limits' s.configurations).Exhaustive →
        (∀ kind, kind ∈ (g.expectation limits' s.configurations).kinds ↔
          d.Viable (tokens.map (·.kind) ++ [kind])) ∧
        ((g.expectation limits' s.configurations).acceptsEnd = true ↔ d.Derives (tokens.map (·.kind)))) := by
  refine ⟨fun s h => viable_of_simulate hb h, fun he => ⟨fun i => error_index_iff hb he, ?_⟩⟩
  intro s h limits' hl
  exact ⟨fun kind => mem_kinds_iff_viable hb h he hl, acceptsEnd_iff_derives hb h he hl⟩

/-- Sums of numbers, declared with left recursion. -/
def sums : Declarations :=
  { tokens := [⟨"NUM", .many1 (.inClass "0-9"), false⟩, ⟨"PLUS", .literal "+", false⟩]
    rules := [("sum", .alt [.seq [.ref "sum", .atom "PLUS", .atom "NUM"], .atom "NUM"])]
    start := some "sum" }

/-- The grammar built for sums. -/
def sumsGrammar : Grammar := sums.build.toOption.getD ⟨.empty, .empty, #[], 0⟩

/-- After a number and a plus a sum goes on with a number and cannot end; two numbers in a row are no sum. -/
theorem viable_sums :
    (∀ kind, sums.Viable [0, 1, kind] ↔ kind = 0) ∧ ¬ sums.Derives [0, 1] ∧ sums.Viable [0] ∧ ¬ sums.Viable [0, 0] := by
  have hb : sums.build = .ok sumsGrammar := by cbv
  -- a number and a plus
  have hs : sumsGrammar.simulate {} [⟨0, "1", 0, 1⟩, ⟨1, "+", 1, 2⟩] = .ok ⟨[⟨6, []⟩], ⟨6, 0, 0⟩⟩ := by cbv
  have hl : (sumsGrammar.phrase.closure {} [⟨6, []⟩]).Exhaustive := ⟨by cbv, by cbv⟩
  have hk : (sumsGrammar.expectation {} [⟨6, []⟩]).kinds = [0] := by cbv
  have hend : (sumsGrammar.expectation {} [⟨6, []⟩]).acceptsEnd = false := by cbv
  obtain ⟨-, hcomplete⟩ := simulate_exact hb {} [⟨0, "1", 0, 1⟩, ⟨1, "+", 1, 2⟩]
  obtain ⟨-, hnext⟩ := hcomplete ((exhaustive_closures_iff hs).2 ⟨rfl, rfl⟩)
  obtain ⟨hkinds, hends⟩ := hnext _ hs {} hl
  -- two numbers
  have hf : sumsGrammar.simulate {} [⟨0, "1", 0, 1⟩, ⟨0, "2", 1, 2⟩] = .error ⟨1, "2", "NUM"⟩ := by cbv
  have he : (sumsGrammar.closures {} [⟨0, "1", 0, 1⟩, ⟨0, "2", 1, 2⟩]).all (fun c => decide c.Exhaustive) = true := by
    cbv
  obtain ⟨-, hcomplete⟩ := simulate_exact hb {} [⟨0, "1", 0, 1⟩, ⟨0, "2", 1, 2⟩]
  obtain ⟨herror, -⟩ := hcomplete fun c hc => of_decide_eq_true (List.all_eq_true.1 he c hc)
  obtain ⟨-, hn, hv⟩ := (herror 1).1 ⟨_, hf, rfl⟩
  refine ⟨fun kind => ?_, fun hd => ?_, hv 1 (Nat.le_refl 1), hn⟩
  · have hkind := hkinds kind
    rw [hk, List.mem_singleton] at hkind
    exact hkind.symm
  · rw [hends.2 hd] at hend
    cases hend

end Grammar

end Typeahead
