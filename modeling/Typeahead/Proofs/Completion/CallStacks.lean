import Typeahead.Proofs.Completion.Advance
import Typeahead.Proofs.Completion.Viability
import Typeahead.Proofs.Network.Coherence

/-!
# Which rule a match belongs to

All that a scan or a simulation produces comes from the rule of a seed, and its call stack agrees with its state
(`Network.KeepsStacks`).  So what completes is at the stop of a seed's rule, and a scan attributes each match to a token
and never to a fragment, whatever refers to what (`Grammar.matches_belong_to_tokens`).
-/

namespace Typeahead

namespace Network

variable {σ τ : Type} [DecidableEq σ] [SymbolSet τ σ] {net : Network σ τ} {A : Label σ τ → Prop}
  {limits limits' : Limits} {seeds : List Configuration} {w : List σ} {c : Configuration} {IsSeed : RuleId → Prop}

/-- What turns up behind the word: the configurations that the last step leads to, and those that a closure explores
from there. -/
def Produces (net : Network σ τ) (limits limits' : Limits) (seeds : List Configuration) (w : List σ)
    (c : Configuration) : Prop :=
  c ∈ net.advance limits seeds w ∨ c ∈ (net.closure limits' (net.advance limits seeds w)).visited

theorem Produces.exists_reads (h : net.Produces limits limits' seeds w c) :
    ∃ seed ∈ seeds, ∃ m, net.Reads seed w m ∧ net.Reaches m c := by
  rcases h with h | h
  · obtain ⟨seed, hseed, hr⟩ := readable_of_mem_advance h
    exact ⟨seed, hseed, c, hr, .refl⟩
  · obtain ⟨m, hm, hreach⟩ := reachable_of_mem_visited h
    obtain ⟨seed, hseed, hr⟩ := readable_of_mem_advance hm
    exact ⟨seed, hseed, m, hr, hreach⟩

/-- Configurations come from the rules of the seeds, their call stacks agree with their states, and those that complete
are at the stop of the rule that they come from. -/
structure KeepsStacks (net : Network σ τ) (limits limits' : Limits) (seeds : List Configuration)
    (IsSeed : RuleId → Prop) : Prop where
  comesFrom : ∀ {w c}, net.Produces limits limits' seeds w c → ∃ rule, IsSeed rule ∧ net.ComesFrom rule w c
  coherent : ∀ {rule w c}, net.Produces limits limits' seeds w c → net.ComesFrom rule w c →
    net.Coherent rule c.state c.stack
  completed : ∀ {rule w c}, c ∈ (net.closure limits' (net.advance limits seeds w)).completed →
    net.ComesFrom rule w c → ∃ info, net.rules[rule]? = some info ∧ c = .initial info.stop

theorem WellFormed.keepsStacks (hn : net.WellFormed A) (limits limits' : Limits)
    (hs : ∀ seed ∈ seeds, ∃ rule start, IsSeed rule ∧ net.start? rule = some start ∧ seed = .initial start) :
    net.KeepsStacks limits limits' seeds IsSeed := by
  refine ⟨fun h => ?_, fun _ h => h.coherent hn, fun hc h => (h.coherent hn).eq_initial_stop hn ?_⟩
  · obtain ⟨seed, hseed, m, hr, hm⟩ := h.exists_reads
    obtain ⟨rule, start, hrule, hstart, rfl⟩ := hs seed hseed
    exact ⟨rule, hrule, start, m, hstart, hr, hm⟩
  · exact (mem_completed_iff.1 hc).2

end Network

namespace Grammar

variable {d : Declarations} {g : Grammar} {limits : Limits} {kind : TokenKind} {t : TokenDef} {w : List Token}
  {s : Simulation}

/-- The rule of a token belongs to the token. -/
theorem kindOfRule?_of_token? (hg : d.Built g) (ht : g.token? kind = some t) : g.kindOfRule? t.rule = some kind := by
  rw [hg.tokens] at ht
  obtain ⟨decl, hdecl, rfl⟩ := Option.map_eq_some_iff.1 ht
  exact hg.kindOfRule? hdecl

/-- The scanner looks for tokens from the starts of their rules. -/
theorem exists_token_of_mem_tokenSeeds {seed : Configuration} (h : seed ∈ g.tokenSeeds) :
    ∃ rule start, (∃ kind t, g.token? kind = some t ∧ t.rule = rule) ∧ g.lexical.start? rule = some start ∧
      seed = .initial start := by
  obtain ⟨t, ht, hseed⟩ := List.mem_filterMap.1 h
  obtain ⟨kind, hkind⟩ := Array.mem_iff_getElem?.1 (Array.mem_toList_iff.1 ht)
  obtain ⟨start, hstart, rfl⟩ := Option.map_eq_some_iff.1 hseed
  exact ⟨t.rule, start, ⟨kind, t, hkind, rfl⟩, hstart, rfl⟩

/-- A simulation ends in the configurations that the kinds lead to. -/
theorem configurations_eq_advance (hg : d.Built g) (h : g.simulate limits w = .ok s) :
    s.configurations = g.phrase.advance limits g.phraseSeeds (w.map (·.kind)) := by
  have hne : g.phraseSeeds ≠ [] := by
    rw [phraseSeeds_eq hg]
    exact List.cons_ne_nil _ _
  rcases g.simulateFrom_advance limits hne 0 w with ⟨s', hs, hconfigs, -⟩ | ⟨⟨e, he⟩, -⟩
  · cases h.symm.trans hs
    exact hconfigs
  · cases h.symm.trans he

/-- In the runs of a built grammar call stacks agree with states.  What completes in the lexical network belongs to a
token; the loop of a scan holds the closure of what the characters lead to, so the match that it finds belongs to a
token as well.  A simulation ends in what the kinds lead to, and what completes there is at the stop of the start rule.
-/
theorem matches_belong_to_tokens (hd : d.build = .ok g) (limits limits' : Limits) :
    g.lexical.KeepsStacks limits limits' g.tokenSeeds (fun rule => ∃ kind t, g.token? kind = some t ∧ t.rule = rule) ∧
    (∀ u, ∀ c ∈ (g.lexical.closure limits' (g.lexical.advance limits g.tokenSeeds u)).completed,
      ∃ kind t, g.token? kind = some t ∧ g.lexical.owner? c.state = some t.rule ∧ g.kindOfRule? t.rule = some kind) ∧
    (∀ u cs, g.lexical.advance limits g.tokenSeeds u ≠ [] → ∃ best stats, g.scan limits (u ++ cs) = g.scanFrom limits
      (g.lexical.closure limits (g.lexical.advance limits g.tokenSeeds u)).frontier u.length best stats cs) ∧
    (∀ cs munch, (g.scan limits cs).best = some munch →
      ∃ c ∈ (g.lexical.closure limits (g.lexical.advance limits g.tokenSeeds (cs.take (munch.extra + 1)))).completed,
        ∃ t, g.token? munch.kind = some t ∧ g.lexical.owner? c.state = some t.rule) ∧
    g.phrase.KeepsStacks limits limits' g.phraseSeeds (· = g.startRule) ∧
    ∀ tokens s, g.simulate limits tokens = .ok s →
      s.configurations = g.phrase.advance limits g.phraseSeeds (tokens.map (·.kind)) := by
  have hg := Declarations.built_of_build hd
  have hlexical := hg.wellFormed_lexical
  have hkeeps : ∀ limits', g.lexical.KeepsStacks limits limits' g.tokenSeeds
      (fun rule => ∃ kind t, g.token? kind = some t ∧ t.rule = rule) :=
    fun limits' => hlexical.keepsStacks limits limits' fun _ => exists_token_of_mem_tokenSeeds
  have hcompleted : ∀ limits' u, ∀ c ∈ (g.lexical.closure limits' (g.lexical.advance limits g.tokenSeeds u)).completed,
      ∃ kind t, g.token? kind = some t ∧ g.lexical.owner? c.state = some t.rule ∧
        g.kindOfRule? t.rule = some kind := by
    intro limits' u c hc
    have hproduced : g.lexical.Produces limits limits' g.tokenSeeds u c := Or.inr (Network.mem_completed_iff.1 hc).1
    obtain ⟨_, ⟨kind, t, ht, rfl⟩, hfrom⟩ := (hkeeps limits').comesFrom hproduced
    obtain ⟨info, hinfo, rfl⟩ := (hkeeps limits').completed hc hfrom
    exact ⟨kind, t, ht, hlexical.owner?_stop hinfo, kindOfRule?_of_token? hg ht⟩
  refine ⟨hkeeps limits', hcompleted limits', fun u cs hu => g.exists_scan_eq_scanFrom limits u (Or.inl hu) cs,
    fun cs munch hm => ?_, ?_, fun tokens s => configurations_eq_advance hg⟩
  · obtain ⟨-, hkind⟩ := readsOff_of_best hm
    unfold matchedKind? at hkind
    obtain ⟨c, hc, hck⟩ := List.mem_filterMap.1 (List.min?_eq_some_iff.1 hkind).1
    obtain ⟨kind, t, ht, howner, hrule⟩ := hcompleted limits _ c hc
    rw [howner] at hck
    cases hrule.symm.trans hck
    exact ⟨c, hc, t, ht, howner⟩
  · refine hg.wellFormed_phrase.keepsStacks limits limits' fun seed hseed => ?_
    obtain ⟨start, hstart, rfl⟩ := List.mem_map.1 hseed
    exact ⟨g.startRule, start, rfl, Option.mem_toList.1 hstart, rfl⟩

/-- Numbers and pairs of them; a pair is a number and a fragment that ends in a number. -/
def pairs : Declarations :=
  { tokens := [⟨"NUMBER", .many1 (.ref "DIGIT"), false⟩, ⟨"PAIR", .seq [.ref "NUMBER", .ref "REST"], false⟩]
    fragments := [("DIGIT", .inClass "0-9"), ("REST", .seq [.literal ",", .ref "NUMBER"])]
    rules := [("start", .atom "PAIR")]
    start := some "start" }

/-- The grammar built for pairs. -/
def pairsGrammar : Grammar := pairs.build.toOption.getD ⟨.empty, .empty, #[], 0⟩

theorem build_pairs : pairs.build = .ok pairsGrammar := by cbv

theorem best_scan_pairs : (pairsGrammar.scan {} "1,23;".toList).best = some ⟨1, 3⟩ := by cbv

/-- The match ends with a number inside a fragment, but it belongs to the pair. -/
theorem match_belongs_to_pair : pairs.build = .ok pairsGrammar ∧
    ∃ c ∈ (pairsGrammar.lexical.closure {}
      (pairsGrammar.lexical.advance {} pairsGrammar.tokenSeeds "1,23".toList)).completed,
        pairsGrammar.lexical.owner? c.state = some 1 := by
  obtain ⟨-, -, -, hmatch, -⟩ := matches_belong_to_tokens build_pairs {} {}
  obtain ⟨c, hc, t, ht, howner⟩ := hmatch _ _ best_scan_pairs
  have hrule : (pairsGrammar.token? 1).map (·.rule) = some 1 := by cbv
  rw [ht] at hrule
  exact ⟨build_pairs, c, hc, howner.trans hrule⟩

end Grammar

end Typeahead
