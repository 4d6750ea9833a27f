import Mathlib
import Typeahead.Completion.Suggestion
import Typeahead.Proofs.Completion.Expectation
import Typeahead.Proofs.Completion.LongestMatch
import Typeahead.Proofs.Grammar.Reordering

/-!
# The order of declarations

Fragments and phrase rules may be declared in any order: the grammars that are built answer each request in the same way
(`Declarations.suggest_eq_of_shuffled`).  They differ in the numbers of rules and states (`Grammar.Renumbers`), and an
answer does not tell these: what is read and what is expected depends on the moves of a network only, and the expected
kinds come in ascending order, whatever the states that accept them.
-/

namespace Typeahead

namespace Grammar

variable {g g' : Grammar} {f : RuleId → RuleId} {S : StateId → StateId → Prop} {limits : Limits}

/-! ### The token table -/

section Tokens

variable (htokens : g'.tokens = g.tokens)

include htokens

theorem displayName_eq_of_tokens (kind : TokenKind) : g'.displayName kind = g.displayName kind := by
  unfold displayName token?
  rw [htokens]

theorem skips_eq_of_tokens (kind : TokenKind) : g'.skips kind = g.skips kind := by
  unfold skips token?
  rw [htokens]

theorem resolve_eq_of_tokens (case : CasePreference) (fragment : Option String) (kinds : List TokenKind) :
    g'.resolve case fragment kinds = g.resolve case fragment kinds := by
  have htexts : g'.textsOf case fragment = g.textsOf case fragment := by
    funext kind
    unfold textsOf spellings token?
    rw [skips_eq_of_tokens htokens, htokens]
  unfold resolve
  rw [htexts]

end Tokens

/-! ### Reading -/

section Lexical

variable (htokens : g'.tokens = g.tokens) (hn : g.lexical.Renumbers f S g'.lexical)
  (hfix : ∀ t ∈ g.tokens, f t.rule = t.rule)

include htokens hn hfix

theorem kindOfRule?_eq_of_renumbers (rule : RuleId) : g'.kindOfRule? (f rule) = g.kindOfRule? rule := by
  have heq : ∀ t ∈ g.tokens.toList, decide (t.rule = f rule) = decide (t.rule = rule) := by
    intro t ht
    have hrule := hfix t (Array.mem_toList_iff.1 ht)
    refine decide_eq_decide.2 ⟨fun h => hn.injective (hrule.trans h), fun h => ?_⟩
    rw [← h, hrule]
  unfold kindOfRule?
  rw [htokens, ← Array.find?_toList, ← Array.find?_toList, List.find?_congr heq]

theorem matchedKind?_eq_of_renumbers {reached reached' : Closure} (h : reached.Matches f S reached') :
    g'.matchedKind? reached' = g.matchedKind? reached := by
  unfold matchedKind?
  congr 1
  refine filterMap_eq_of_forall₂ h.completed fun {c c'} hc => ?_
  rw [hn.owner? hc.state]
  cases g.lexical.owner? c.state with
  | none => rfl
  | some rule => exact kindOfRule?_eq_of_renumbers htokens hn hfix rule

theorem scanFrom_eq_of_renumbers {frontier frontier' : List Configuration}
    (h : List.Forall₂ (Configuration.Matches f S) frontier frontier') (read : Nat) (best : Option Munch) (stats : Stats)
    (cs : List Char) :
    g'.scanFrom limits frontier' read best stats cs = g.scanFrom limits frontier read best stats cs := by
  induction cs generalizing frontier frontier' read best stats with
  | nil =>
    cases h <;> rfl
  | cons c cs ih =>
    have hstep := hn.step c h
    rw [scanFrom, scanFrom]
    generalize g.lexical.step frontier c = configs, g'.lexical.step frontier' c = configs' at hstep
    cases hstep with
    | nil => rfl
    | cons hc hcs =>
      have hreached := hn.closure limits (List.Forall₂.cons hc hcs)
      simp only [matchedKind?_eq_of_renumbers htokens hn hfix hreached, hreached.stats]
      exact ih hreached.frontier _ _ _

/-- Tokens are tried from corresponding configurations. -/
theorem tokenSeeds_of_renumbers : List.Forall₂ (Configuration.Matches f S) g.tokenSeeds g'.tokenSeeds := by
  have hsame : List.Forall₂ (fun t t' => t' = t ∧ t ∈ g.tokens) g.tokens.toList g'.tokens.toList := by
    rw [htokens]
    exact List.forall₂_same.2 fun t ht => ⟨rfl, Array.mem_toList_iff.1 ht⟩
  refine List.rel_filterMap ?_ hsame
  intro t t' htt
  obtain ⟨rfl, ht⟩ := htt
  have hstart := hn.start?_cases t'.rule
  rw [hfix t' ht] at hstart
  rcases hstart with ⟨hs, hs'⟩ | ⟨s, s', hs, hs', hstart⟩
  · simp only [hs, hs']
    exact .none
  · simp only [hs, hs']
    exact .some ⟨hstart, .nil⟩

theorem scan_eq_of_renumbers (cs : List Char) : g'.scan limits cs = g.scan limits cs := by
  have hreached := hn.closure limits (tokenSeeds_of_renumbers htokens hn hfix)
  unfold scan
  simp only [hreached.stats]
  exact scanFrom_eq_of_renumbers htokens hn hfix hreached.frontier _ _ _ cs

/-- A text is split into the same tokens. -/
theorem tokenizeFrom_eq_of_renumbers (position : Nat) (cs : List Char) :
    g'.tokenizeFrom limits position cs = g.tokenizeFrom limits position cs := by
  induction hlen : cs.length using Nat.strong_induction_on generalizing position cs with
  | h len ih =>
    cases cs with
    | nil => rw [tokenizeFrom, tokenizeFrom]
    | cons c cs =>
      -- what is left behind a match is shorter
      have hrest : ∀ munch : Munch, ∀ stop, g'.tokenizeFrom limits stop (cs.drop munch.extra) =
          g.tokenizeFrom limits stop (cs.drop munch.extra) := by
        intro munch stop
        refine ih _ ?_ stop _ rfl
        rw [List.length_drop, ← hlen, List.length_cons]
        omega
      rw [tokenizeFrom, tokenizeFrom]
      simp only [scan_eq_of_renumbers htokens hn hfix, skips_eq_of_tokens htokens, hrest]

end Lexical

/-! ### Simulating -/

section Phrase

variable (hn : g.phrase.Renumbers f S g'.phrase)

include hn

/-- The same tokens are consumed, from corresponding configurations to corresponding ones. -/
theorem simulateFrom_of_renumbers (htokens : g'.tokens = g.tokens) {configs configs' : List Configuration}
    (h : List.Forall₂ (Configuration.Matches f S) configs configs') (index : Nat) (w : List Token) :
    (∃ e, g.simulateFrom limits index configs w = .error e ∧ g'.simulateFrom limits index configs' w = .error e) ∨
      ∃ s s', g.simulateFrom limits index configs w = .ok s ∧ g'.simulateFrom limits index configs' w = .ok s' ∧
        List.Forall₂ (Configuration.Matches f S) s.configurations s'.configurations ∧ s'.stats = s.stats := by
  induction w generalizing configs configs' index with
  | nil => exact Or.inr ⟨_, _, rfl, rfl, h, rfl⟩
  | cons x w ih =>
    have hreached := hn.closure limits h
    have hstep := hn.step x.kind hreached.frontier
    rw [simulateFrom, simulateFrom]
    simp only [hreached.stats, displayName_eq_of_tokens htokens]
    generalize g.phrase.step _ x.kind = next, g'.phrase.step _ x.kind = next' at hstep
    cases hstep with
    | nil => exact Or.inl ⟨_, rfl, rfl⟩
    | cons hc hcs =>
      rcases ih (List.Forall₂.cons hc hcs) (index + 1) with ⟨e, he, he'⟩ | ⟨s, s', hs, hs', hconfigs, hstats⟩
      · simp only [he, he']
        exact Or.inl ⟨e, rfl, rfl⟩
      · simp only [hs, hs']
        exact Or.inr ⟨_, _, rfl, rfl, hconfigs, congrArg (_ + ·) hstats⟩

/-- The same kinds are expected in corresponding configurations. -/
theorem kinds_eq_of_renumbers {configs configs' : List Configuration}
    (h : List.Forall₂ (Configuration.Matches f S) configs configs') :
    (g'.expectation limits configs').kinds = (g.expectation limits configs).kinds := by
  have hreached := hn.closure limits h
  -- strictly ascending lists with the same members are the same
  refine List.Pairwise.eq_of_mem_iff (pairwise_kinds g' limits configs') (pairwise_kinds g limits configs) ?_
  intro kind
  rw [mem_kinds_iff_step_ne_nil, mem_kinds_iff_step_ne_nil, ← List.length_pos_iff, ← List.length_pos_iff,
    (hn.step kind hreached.frontier).length_eq]

end Phrase

/-! ### Requests -/

/-- Grammars that differ in the numbers of rules and states answer each request in the same way. -/
theorem Renumbers.suggest_eq (h : g.Renumbers g') (options : Options) (input : String) :
    g'.suggest options input = g.suggest options input := by
  obtain ⟨htokens, ⟨fl, Sl, hl, hfix⟩, fp, Sp, hp, hstart⟩ := h
  have hread : g'.tokenize options.limits input = g.tokenize options.limits input :=
    tokenizeFrom_eq_of_renumbers htokens hl hfix 0 input.toList
  have hseeds : List.Forall₂ (Configuration.Matches fp Sp) g.phraseSeeds g'.phraseSeeds := by
    unfold phraseSeeds
    rw [hstart]
    exact hp.seeds g.startRule
  unfold suggest
  rw [hread]
  cases g.tokenize options.limits input with
  | error e => rfl
  | ok read =>
    simp only [simulate]
    rcases simulateFrom_of_renumbers hp htokens hseeds 0 read.tokens with ⟨e, he, he'⟩ |
      ⟨s, s', hs, hs', hconfigs, hstats⟩
    · rw [he, he']
    · have hreached := hp.closure options.limits hconfigs
      have hend : (g'.expectation options.limits s'.configurations).acceptsEnd =
          (g.expectation options.limits s.configurations).acceptsEnd := hreached.acceptsEnd_eq
      have hsearch : (g'.expectation options.limits s'.configurations).stats =
          (g.expectation options.limits s.configurations).stats := hreached.stats
      rw [hs, hs']
      simp only [resolve_eq_of_tokens htokens, kinds_eq_of_renumbers hp hconfigs, hstats, hend, hsearch]

end Grammar

namespace Declarations

variable {d d' : Declarations} {g : Grammar}

/-- The order in which fragments and phrase rules are declared does not matter: declarations that differ in it only are
built together, and the grammars answer each request with the same report or the same error. -/
theorem suggest_eq_of_shuffled (h : d.Shuffled d') (hd : d.build = .ok g) :
    ∃ g', d'.build = .ok g' ∧ ∀ options input, g'.suggest options input = g.suggest options input := by
  obtain ⟨g', hd', hg⟩ := h.exists_build hd
  exact ⟨g', hd', hg.suggest_eq⟩

/-- Chains of numbers; each number may have a sign. -/
def numberChains : Declarations where
  tokens := [⟨"NUMBER", .seq [.optional (.ref "SIGN"), .ref "DIGIT"], false⟩, ⟨"THEN", .atom (.char '>'), false⟩]
  fragments := [("SIGN", .atom (.char '-')), ("DIGIT", .atom (.set (.ranges [⟨'0', '9'⟩])))]
  rules := [("chain", .seq [.atom "NUMBER", .ref "rest"]), ("rest", .optional (.seq [.atom "THEN", .ref "chain"]))]
  start := some "chain"

def numberChainsGrammar : Grammar := numberChains.build.toOption.getD ⟨.empty, .empty, #[], 0⟩

/-- The same declarations, with the later fragment and the later rule first. -/
def numberChainsReversed : Declarations :=
  { numberChains with fragments := numberChains.fragments.reverse, rules := numberChains.rules.reverse }

/-- The start rule gets another number, and the answers stay the same. -/
theorem suggest_numberChainsReversed : numberChainsGrammar.startRule = 0 ∧
    ∃ g', numberChainsReversed.build = .ok g' ∧ g'.startRule = 1 ∧
      (g'.suggest {} "-1>").toOption = some ⟨[⟨">", 1⟩], some ⟨">", 2⟩, 1, true, ⟨34, 0, 0⟩⟩ := by
  have hd : numberChains.build = .ok numberChainsGrammar := by cbv
  have hstart : numberChainsReversed.build.toOption.map (·.startRule) = some 1 := by cbv
  have hsuggest : (numberChainsGrammar.suggest {} "-1>").toOption =
      some ⟨[⟨">", 1⟩], some ⟨">", 2⟩, 1, true, ⟨34, 0, 0⟩⟩ := by cbv
  have hshuffled : numberChains.Shuffled numberChainsReversed :=
    ⟨rfl, rfl, (List.reverse_perm _).symm, (List.reverse_perm _).symm⟩
  obtain ⟨g', hd', heq⟩ := suggest_eq_of_shuffled hshuffled hd
  rw [hd'] at hstart
  refine ⟨by cbv, g', hd', Option.some.inj hstart, ?_⟩
  rw [heq, hsuggest]

end Declarations

end Typeahead
