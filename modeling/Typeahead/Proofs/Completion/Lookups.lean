import Typeahead.Proofs.Completion.CallStacks
import Typeahead.Proofs.Network.Lookups

/-!
# Requests whose lookups all succeed

Scans, simulations and expectations are told once more with lookups that give no result where something does not exist.
The networks of a built grammar are well formed, and requests begin at the starts of rules, so all of these lookups
succeed, whatever the input and the limits (`Grammar.lookups_succeed`).
-/

namespace Typeahead.Grammar

/-- `tokenSeeds`, if the rules of all tokens are there. -/
def tokenSeedsChecked (g : Grammar) : Option (List Configuration) :=
  g.tokens.toList.mapM fun t => g.lexical.rules[t.rule]?.map fun info => .initial info.start

/-- `matchedKind?`, if what completes is at states that are there. -/
def matchedKindChecked (g : Grammar) (reached : Closure) : Option (Option TokenKind) := do
  let kinds ← reached.completed.mapM fun c => g.lexical.states[c.state]?.map fun state => g.kindOfRule? state.rule
  pure (kinds.filterMap id).min?

/-- `scanFrom`, with no result if a lookup fails. -/
def scanFromChecked (g : Grammar) (limits : Limits) (frontier : List Configuration) (read : Nat) (best : Option Munch)
    (stats : Stats) : List Char → Option Scan
  | [] => some ⟨best, !frontier.isEmpty, stats⟩
  | c :: cs => do
    match ← g.lexical.stepChecked frontier c with
    | [] => pure ⟨best, false, stats⟩
    | configs => do
      let reached ← g.lexical.closureChecked limits configs
      let best := match ← g.matchedKindChecked reached with
        | some kind => some ⟨kind, read⟩
        | none => best
      scanFromChecked g limits reached.frontier (read + 1) best (stats + reached.stats) cs

/-- `scan`, with no result if a lookup fails. -/
def scanChecked (g : Grammar) (limits : Limits) (cs : List Char) : Option Scan := do
  let seeds ← g.tokenSeedsChecked
  let reached ← g.lexical.closureChecked limits seeds
  g.scanFromChecked limits reached.frontier 0 none reached.stats cs

/-- `simulateFrom`, with no result if a lookup fails. -/
def simulateFromChecked (g : Grammar) (limits : Limits) (index : Nat) (configs : List Configuration) :
    List Token → Option (Except NoViableParse Simulation)
  | [] => some (.ok ⟨configs, {}⟩)
  | token :: tokens => do
    let reached ← g.phrase.closureChecked limits configs
    match ← g.phrase.stepChecked reached.frontier token.kind with
    | [] => pure (.error ⟨index, token.text, g.displayName token.kind⟩)
    | next => do
      let rest ← simulateFromChecked g limits (index + 1) next tokens
      pure (rest.map fun s => { s with stats := reached.stats + s.stats })

/-- `simulate`, if the start rule is there. -/
def simulateChecked (g : Grammar) (limits : Limits) (tokens : List Token) :
    Option (Except NoViableParse Simulation) := do
  let info ← g.phrase.rules[g.startRule]?
  g.simulateFromChecked limits 0 [.initial info.start] tokens

/-- `expectation`, with no result if a lookup fails. -/
def expectationChecked (g : Grammar) (limits : Limits) (configs : List Configuration) : Option Expectation := do
  let reached ← g.phrase.closureChecked limits configs
  let states := sortedDistinct (fun a b => decide (a ≤ b)) (reached.frontier.map (·.state))
  let pairs ← states.mapM fun state =>
    g.phrase.states[state]?.map fun s => s.transitions.flatMap fun t => t.kinds.map fun kind => (kind, state)
  let ordered := sortedDistinct (fun a b => decide (a.1 < b.1 ∨ a.1 = b.1 ∧ a.2 ≤ b.2)) pairs.flatten
  pure
    { candidates := groupByKind ordered
      acceptsEnd := reached.acceptsEnd
      stats := reached.stats
      bound := reached.bound }

variable {d : Declarations} {g : Grammar} {A : Label TokenKind (List TokenKind) → Prop} {limits : Limits}
  {configs frontier : List Configuration} {w : List Token} {s : Simulation}

open Network (AllCoherent)

/-! ### Scans -/

theorem tokenSeedsChecked_eq (hg : d.Built g) : g.tokenSeedsChecked = some g.tokenSeeds := by
  have hseed : ∀ t ∈ g.tokens.toList, (g.lexical.rules[t.rule]?.map fun info => .initial info.start) =
      some (Configuration.initial (2 * t.rule)) := by
    intro t ht
    obtain ⟨kind, hkind⟩ := Array.mem_iff_getElem?.1 (Array.mem_toList_iff.1 ht)
    rw [hg.getElem?_tokens] at hkind
    obtain ⟨decl, hdecl, rfl⟩ := Option.map_eq_some_iff.1 hkind
    obtain ⟨info, hinfo, hstart⟩ := Option.map_eq_some_iff.1 (hg.token_reads hdecl).1
    show (g.lexical.rules[kind]?.map _) = _
    rw [hinfo, Option.map_some, hstart]
    rfl
  unfold tokenSeedsChecked tokenSeeds
  rw [mapM_eq_some_of_forall hseed, ← List.filterMap_eq_map]
  refine congrArg some (List.filterMap_congr fun t ht => ?_)
  rw [Function.comp_apply, ← hseed t ht, Network.start?, Option.map_map]
  rfl

theorem allCoherent_tokenSeeds (hg : d.Built g) : g.lexical.AllCoherent g.tokenSeeds := by
  intro seed hseed
  obtain ⟨rule, start, -, hstart, rfl⟩ := exists_token_of_mem_tokenSeeds hseed
  exact ⟨rule, Network.coherent_initial hg.wellFormed_lexical hstart⟩

theorem matchedKindChecked_eq {reached : Closure} (h : g.lexical.AllCoherent reached.completed) :
    g.matchedKindChecked reached = some (g.matchedKind? reached) := by
  have hkinds : reached.completed.mapM (fun c => g.lexical.states[c.state]?.map fun state => g.kindOfRule? state.rule) =
      some (reached.completed.map fun c => (g.lexical.owner? c.state).bind g.kindOfRule?) := by
    refine mapM_eq_some_of_forall fun c hc => ?_
    obtain ⟨rule, hcoherent⟩ := h c hc
    obtain ⟨state, hstate, -⟩ := hcoherent.exists_state
    unfold Network.owner?
    rw [hstate]
    rfl
  unfold matchedKindChecked matchedKind?
  rw [hkinds]
  simp only [Option.bind_eq_bind, Option.bind_some, Option.pure_def, List.filterMap_map, Function.id_comp]

/-- The loop of a scan keeps the frontier coherent. -/
theorem scanFromChecked_eq (hg : d.Built g) {cs : List Char} (h : g.lexical.AllCoherent frontier) (read : Nat)
    (best : Option Munch) (stats : Stats) :
    g.scanFromChecked limits frontier read best stats cs = some (g.scanFrom limits frontier read best stats cs) := by
  have hn := hg.wellFormed_lexical
  induction cs generalizing frontier read best stats with
  | nil => rfl
  | cons c cs ih =>
    rw [scanFromChecked, scanFrom, Network.stepChecked_eq h]
    have hnext : g.lexical.AllCoherent (g.lexical.step frontier c) := h.step hn
    cases hs : g.lexical.step frontier c with
    | nil => rfl
    | cons first others =>
      rw [hs] at hnext
      have hvisited : g.lexical.AllCoherent (g.lexical.closure limits (first :: others)).visited := hnext.visited hn
      have hcompleted : g.lexical.AllCoherent (g.lexical.closure limits (first :: others)).completed :=
        fun c hc => hvisited c (Network.mem_completed_iff.1 hc).1
      simp only [Option.bind_eq_bind, Option.bind_some, Network.closureChecked_eq hn hnext,
        matchedKindChecked_eq hcompleted]
      exact ih (fun c hc => hvisited c (Network.mem_frontier_iff.1 hc).1) _ _ _

theorem scanChecked_eq (hg : d.Built g) (limits : Limits) (cs : List Char) :
    g.scanChecked limits cs = some (g.scan limits cs) := by
  have hn := hg.wellFormed_lexical
  have hseeds := allCoherent_tokenSeeds hg
  unfold scanChecked
  simp only [Option.bind_eq_bind, Option.bind_some, tokenSeedsChecked_eq hg, Network.closureChecked_eq hn hseeds]
  exact scanFromChecked_eq hg (fun c hc => hseeds.visited hn c (Network.mem_frontier_iff.1 hc).1) _ _ _

/-! ### Simulations and expectations -/

theorem simulateFromChecked_eq (hn : g.phrase.WellFormed A) (h : g.phrase.AllCoherent configs) (index : Nat) :
    g.simulateFromChecked limits index configs w = some (g.simulateFrom limits index configs w) := by
  induction w generalizing configs index with
  | nil => rfl
  | cons x w ih =>
    have hfrontier : g.phrase.AllCoherent (g.phrase.closure limits configs).frontier :=
      fun c hc => h.visited hn c (Network.mem_frontier_iff.1 hc).1
    have hnext : g.phrase.AllCoherent (g.phrase.step (g.phrase.closure limits configs).frontier x.kind) :=
      hfrontier.step hn
    rw [simulateFromChecked, simulateFrom]
    simp only [Option.bind_eq_bind, Option.bind_some, Network.closureChecked_eq hn h, Network.stepChecked_eq hfrontier]
    cases hs : g.phrase.step (g.phrase.closure limits configs).frontier x.kind with
    | nil => rfl
    | cons first others =>
      rw [hs] at hnext
      simp only [ih hnext]
      rfl

theorem allCoherent_phraseSeeds (hn : g.phrase.WellFormed A) : g.phrase.AllCoherent g.phraseSeeds := by
  intro seed hseed
  obtain ⟨start, hstart, rfl⟩ := List.mem_map.1 hseed
  exact ⟨g.startRule, Network.coherent_initial hn (Option.mem_toList.1 hstart)⟩

theorem simulateChecked_eq (hg : d.Built g) (limits : Limits) (tokens : List Token) :
    g.simulateChecked limits tokens = some (g.simulate limits tokens) := by
  have hn := hg.wellFormed_phrase
  obtain ⟨name, -, hrule⟩ := hg.start
  obtain ⟨info, hinfo, -⟩ := Option.map_eq_some_iff.1 (hg.phrase_reads hrule).1
  have hseeds : g.phraseSeeds = [.initial info.start] := by
    unfold phraseSeeds Network.start?
    rw [hinfo]
    rfl
  unfold simulateChecked simulate
  rw [hinfo, hseeds]
  exact simulateFromChecked_eq hn (hseeds ▸ allCoherent_phraseSeeds hn) 0

theorem expectationChecked_eq (hn : g.phrase.WellFormed A) (h : g.phrase.AllCoherent configs) :
    g.expectationChecked limits configs = some (g.expectation limits configs) := by
  have hpairs : ∀ state ∈ sortedDistinct (fun a b => decide (a ≤ b))
      ((g.phrase.closure limits configs).frontier.map (·.state)),
      (g.phrase.states[state]?.map fun s => s.transitions.flatMap fun t => t.kinds.map fun kind => (kind, state)) =
        some ((g.phrase.transitions state).flatMap fun t => t.kinds.map fun kind => (kind, state)) := by
    intro state hstate
    obtain ⟨c, hc, rfl⟩ := List.mem_map.1 (mem_sortedDistinct.1 hstate)
    obtain ⟨rule, hcoherent⟩ := h.visited hn c (Network.mem_frontier_iff.1 hc).1
    obtain ⟨s, hs, hts⟩ := hcoherent.exists_state
    rw [hs, hts]
    rfl
  unfold expectationChecked expectation
  simp only [Option.bind_eq_bind, Option.bind_some, Network.closureChecked_eq hn h, mapM_eq_some_of_forall hpairs]
  rw [List.flatMap_def]
  rfl

theorem allCoherent_configurations (hg : d.Built g) (h : g.simulate limits w = .ok s) :
    g.phrase.AllCoherent s.configurations := by
  have hn := hg.wellFormed_phrase
  intro c hc
  obtain ⟨seed, hseed, hr⟩ := (readable_of_simulateFrom h).1 c hc
  obtain ⟨rule, hcoherent⟩ := allCoherent_phraseSeeds hn seed hseed
  exact ⟨rule, hcoherent.reads hn hr⟩

/-- The networks of a built grammar are well formed, the name of each state is its position, and the labels of the
phrase network accept kinds of tokens only.  So no lookup fails, for any text, any tokens, and all that simulations end
in. -/
theorem lookups_succeed (hd : d.build = .ok g) :
    g.lexical.WellFormed (fun _ => True) ∧
    g.phrase.WellFormed (fun label => ∀ kind, label.accepts kind = true → kind < g.tokens.size) ∧
    (∀ (s : Nat) state, g.lexical.states[s]? = some state → state.id = s) ∧
    (∀ (s : Nat) state, g.phrase.states[s]? = some state → state.id = s) ∧
    ∀ limits, (∀ cs, g.scanChecked limits cs = some (g.scan limits cs)) ∧
      ∀ tokens, g.simulateChecked limits tokens = some (g.simulate limits tokens) ∧
        ∀ s, g.simulate limits tokens = .ok s → ∀ limits',
          g.expectationChecked limits' s.configurations = some (g.expectation limits' s.configurations) := by
  have hg := Declarations.built_of_build hd
  refine ⟨hg.wellFormed_lexical, hg.wellFormed_phrase, fun _ _ => hg.wellFormed_lexical.id_eq,
    fun _ _ => hg.wellFormed_phrase.id_eq,
    fun limits => ⟨scanChecked_eq hg limits, fun tokens => ⟨simulateChecked_eq hg limits tokens, ?_⟩⟩⟩
  intro s hs limits'
  exact expectationChecked_eq hg.wellFormed_phrase (allCoherent_configurations hg hs)

/-- A scan of a pair looks up what is there. -/
theorem lookups_succeed_pairs : pairs.build = .ok pairsGrammar ∧
    (pairsGrammar.scanChecked {} "1,23;".toList).map (·.best) = some (some ⟨1, 3⟩) := by
  obtain ⟨-, -, -, -, hlookups⟩ := lookups_succeed build_pairs
  refine ⟨build_pairs, ?_⟩
  rw [(hlookups {}).1, Option.map_some, best_scan_pairs]

end Typeahead.Grammar
