import Typeahead.Completion.Token
import Typeahead.Proofs.Grammar.Declared
import Typeahead.Proofs.Network.Exploration

/-!
# Scans find the longest match

What a token matches is told by its lexical expression as it is written: `Declarations.Munches` is the longest match,
at that length of the lowest kind, and `Declarations.Live` says that some token can go on at the end of the text.  A
scan whose closures are all exhaustive finds just that (`Grammar.scan_exact`): it keeps the best match so far while it
follows all tokens at once, so the loop invariant speaks about all beginnings of the text that has been read.
-/

namespace Typeahead

namespace Declarations

/-- The lexical expression of the token derives exactly the text. -/
def Spells (d : Declarations) (kind : TokenKind) (u : List Char) : Prop :=
  ∃ t, d.tokens[kind]? = some t ∧ d.lexicalSystem.Derives [t.body] u

/-- The token matches the first `n` characters, at least one. -/
def Matches (d : Declarations) (cs : List Char) (kind : TokenKind) (n : Nat) : Prop :=
  0 < n ∧ n ≤ cs.length ∧ d.Spells kind (cs.take n)

/-- The longest match; of several tokens that match it, the one of the lowest kind. -/
def Munches (d : Declarations) (cs : List Char) (kind : TokenKind) (n : Nat) : Prop :=
  d.Matches cs kind n ∧ ∀ kind' n', d.Matches cs kind' n' → n' < n ∨ n' = n ∧ kind ≤ kind'

/-- Some token's derivation has consumed exactly the text, and its next item is a character or a set of characters. -/
def Live (d : Declarations) (u : List Char) : Prop := ∃ t ∈ d.tokens, d.lexicalSystem.Live [t.body] u

/-- The match is the best one, or there is none. -/
def Found (d : Declarations) (cs : List Char) : Option Munch → Prop
  | none => ∀ kind n, ¬ d.Matches cs kind n
  | some munch => d.Munches cs munch.kind (munch.extra + 1)

variable {d : Declarations} {g : Grammar} {u v : List Char} {c : Char} {kind : TokenKind} {n : Nat}
  {best : Option Munch}

/-! ### Matches of growing texts -/

theorem Spells.viable (h : d.Spells kind u) : ∃ t ∈ d.tokens, d.lexicalSystem.Viable [t.body] u := by
  obtain ⟨t, ht, h⟩ := h
  exact ⟨t, List.mem_of_getElem? ht, h.viable⟩

/-- A match of a longer text lies within the shorter one or goes beyond it. -/
theorem matches_append_iff :
    d.Matches (u ++ v) kind n ↔
      d.Matches u kind n ∨ u.length < n ∧ n ≤ u.length + v.length ∧ d.Spells kind (u ++ v.take (n - u.length)) := by
  unfold Matches
  rw [List.length_append, List.take_append]
  by_cases hn : n ≤ u.length
  · have hz : n - u.length = 0 := Nat.sub_eq_zero_of_le hn
    rw [hz, List.take_zero, List.append_nil]
    constructor
    · rintro ⟨h₁, -, h₂⟩
      exact Or.inl ⟨h₁, hn, h₂⟩
    · rintro (⟨h₁, -, h₂⟩ | ⟨h₁, -⟩)
      · exact ⟨h₁, by omega, h₂⟩
      · omega
  · rw [List.take_of_length_le (by omega)]
    constructor
    · rintro ⟨-, h₁, h₂⟩
      exact Or.inr ⟨by omega, h₁, h₂⟩
    · rintro (⟨-, h₁, -⟩ | ⟨h₁, h₂, h₃⟩)
      · exact absurd h₁ hn
      · exact ⟨by omega, h₂, h₃⟩

theorem matches_concat_iff :
    d.Matches (u ++ [c]) kind n ↔ d.Matches u kind n ∨ n = u.length + 1 ∧ d.Spells kind (u ++ [c]) := by
  rw [matches_append_iff, List.length_singleton]
  refine or_congr_right ⟨?_, ?_⟩
  · rintro ⟨h₁, h₂, h⟩
    have hn : n - u.length = 1 := by omega
    rw [hn] at h
    exact ⟨by omega, h⟩
  · rintro ⟨rfl, h⟩
    refine ⟨by omega, Nat.le_refl _, ?_⟩
    rwa [Nat.add_sub_cancel_left]

/-- Only matches matter for what is found. -/
private theorem Found.congr (h : d.Found u best) (hm : ∀ kind n, d.Matches v kind n ↔ d.Matches u kind n) :
    d.Found v best := by
  cases best with
  | none => exact fun kind n hv => h kind n ((hm kind n).1 hv)
  | some munch => exact ⟨(hm _ _).2 h.1, fun kind n hv => h.2 kind n ((hm kind n).1 hv)⟩

/-- A match of the whole text is longer than those before. -/
private theorem Found.concat (h : d.Spells kind (u ++ [c])) (hmin : ∀ kind', d.Spells kind' (u ++ [c]) → kind ≤ kind') :
    d.Found (u ++ [c]) (some ⟨kind, u.length⟩) := by
  refine ⟨matches_concat_iff.2 (Or.inr ⟨rfl, h⟩), fun kind' n' hm => ?_⟩
  rcases matches_concat_iff.1 hm with ⟨-, hn, -⟩ | ⟨hn, hs⟩
  · exact Or.inl (Nat.lt_succ_of_le hn)
  · exact Or.inr ⟨hn, hmin kind' hs⟩

/-! ### The lexical network of a built grammar -/

/-- From the start of the rule of a token, the lexical network reads what the expression of the token yields. -/
theorem Built.token_reads (h : Built d g) {k : Nat} {t : TokenDecl} (hk : d.tokens[k]? = some t) :
    g.lexical.start? k = some (2 * k) ∧ ∀ w,
      ((∃ c, g.lexical.Reads (.initial (2 * k)) w c) ↔ d.lexicalSystem.Viable [t.body] w) ∧
      ((∃ m c, g.lexical.Reads (.initial (2 * k)) w m ∧ g.lexical.Reaches m c ∧ g.lexical.CanConsume c.state) ↔
        d.lexicalSystem.Live [t.body] w) ∧
      ((∃ m c, g.lexical.Reads (.initial (2 * k)) w m ∧ g.lexical.Reaches m c ∧ g.lexical.CanFinish c) ↔
        d.lexicalSystem.Derives [t.body] w) ∧
      ∀ m c, g.lexical.Reads (.initial (2 * k)) w m → g.lexical.Reaches m c → g.lexical.CanFinish c →
        g.lexical.owner? c.state = some k := by
  have hname : d.lexicalNames[k]? = some t.name := by
    unfold lexicalNames
    rw [List.getElem?_append_left, List.getElem?_map, hk]
    · rfl
    · rw [List.length_map]
      exact (List.getElem?_eq_some_iff.1 hk).1
  have hbody : d.lexicalSystem.body? t.name = some t.body := by
    refine lookup_of_mem ?_ (List.mem_append_left _ (List.mem_map.2 ⟨t, List.mem_of_getElem? hk, rfl⟩))
    show (d.lexicalBodies.map (·.1)).Nodup
    rw [map_lexicalBodies]
    exact h.nodup_lexical
  obtain ⟨hstart, hreads⟩ := h.lexical_reads hname
  refine ⟨hstart, fun w => ?_⟩
  obtain ⟨hviable, hlive, hderives⟩ := RuleSystem.ref_iff_of_body (w := w) hbody
  rw [← hviable, ← hlive, ← hderives]
  exact hreads w

/-- The rule of a token has the number of the token. -/
theorem Built.kindOfRule? (h : Built d g) {k : Nat} {t : TokenDecl} (hk : d.tokens[k]? = some t) :
    g.kindOfRule? k = some k := by
  have ht := h.getElem?_tokens k
  rw [hk, Option.map_some] at ht
  obtain ⟨hkind, hrule⟩ := h.kind_and_rule ht
  obtain ⟨hlt, hget⟩ := Array.getElem?_eq_some_iff.1 ht
  have hfind : g.tokens.find? (·.rule = k) = some (tokenEntry g.lexical k t) := by
    refine Array.find?_eq_some_iff_getElem.2 ⟨decide_eq_true hrule, k, hlt, hget, fun j hj => ?_⟩
    -- the tokens in front have rules of their own
    have hj' : g.tokens[j].rule = j := (h.kind_and_rule (Array.getElem?_eq_getElem (Nat.lt_trans hj hlt))).2
    rw [hj', decide_eq_false (Nat.ne_of_lt hj)]
    rfl
  unfold Grammar.kindOfRule?
  rw [hfind, Option.map_some, hkind]

theorem Built.mem_tokenSeeds_iff (h : Built d g) {c : Configuration} :
    c ∈ g.tokenSeeds ↔ ∃ (k : Nat) (t : TokenDecl), d.tokens[k]? = some t ∧ c = .initial (2 * k) := by
  unfold Grammar.tokenSeeds
  rw [List.mem_filterMap]
  constructor
  · rintro ⟨t, ht, hc⟩
    obtain ⟨k, hk⟩ := Array.mem_iff_getElem?.1 (Array.mem_toList_iff.1 ht)
    rw [h.getElem?_tokens] at hk
    obtain ⟨t', ht', rfl⟩ := Option.map_eq_some_iff.1 hk
    obtain ⟨s, hs, rfl⟩ := Option.map_eq_some_iff.1 hc
    have hstart : g.lexical.start? k = some s := hs
    rw [(h.token_reads ht').1] at hstart
    cases hstart
    exact ⟨k, t', ht', rfl⟩
  · rintro ⟨k, t, hk, rfl⟩
    refine ⟨tokenEntry g.lexical k t, ?_, ?_⟩
    · have hk' := h.getElem?_tokens k
      rw [hk] at hk'
      exact Array.mem_toList_iff.2 (Array.mem_of_getElem? hk')
    · show (g.lexical.start? k).map _ = _
      rw [(h.token_reads hk).1]
      rfl

/-! ### Following all tokens at once -/

private theorem Built.readable_iff (h : Built d g) {c : Configuration} :
    g.lexical.Readable g.tokenSeeds u c ↔
      ∃ (k : Nat) (t : TokenDecl), d.tokens[k]? = some t ∧ g.lexical.Reads (.initial (2 * k)) u c := by
  unfold Network.Readable
  constructor
  · rintro ⟨seed, hs, hr⟩
    obtain ⟨k, t, hk, rfl⟩ := h.mem_tokenSeeds_iff.1 hs
    exact ⟨k, t, hk, hr⟩
  · rintro ⟨k, t, hk, hr⟩
    exact ⟨_, h.mem_tokenSeeds_iff.2 ⟨k, t, hk, rfl⟩, hr⟩

/-- What can be read is what some token can begin with. -/
theorem Built.exists_readable_iff (h : Built d g) :
    (∃ c, g.lexical.Readable g.tokenSeeds u c) ↔ ∃ t ∈ d.tokens, d.lexicalSystem.Viable [t.body] u := by
  constructor
  · rintro ⟨c, hc⟩
    obtain ⟨k, t, hk, hr⟩ := h.readable_iff.1 hc
    exact ⟨t, List.mem_of_getElem? hk, ((h.token_reads hk).2 u).1.1 ⟨c, hr⟩⟩
  · rintro ⟨t, ht, hv⟩
    obtain ⟨k, hk⟩ := List.mem_iff_getElem?.1 ht
    obtain ⟨c, hc⟩ := ((h.token_reads hk).2 u).1.2 hv
    exact ⟨c, h.readable_iff.2 ⟨k, t, hk, hc⟩⟩

/-- A token that can go on is followed to a state that consumes a character. -/
theorem Built.live_iff (h : Built d g) :
    d.Live u ↔ ∃ m c, g.lexical.Readable g.tokenSeeds u m ∧ g.lexical.Reaches m c ∧ g.lexical.CanConsume c.state := by
  constructor
  · rintro ⟨t, ht, hl⟩
    obtain ⟨k, hk⟩ := List.mem_iff_getElem?.1 ht
    obtain ⟨m, c, hr, hc⟩ := ((h.token_reads hk).2 u).2.1.2 hl
    exact ⟨m, c, h.readable_iff.2 ⟨k, t, hk, hr⟩, hc⟩
  · rintro ⟨m, c, hm, hc⟩
    obtain ⟨k, t, hk, hr⟩ := h.readable_iff.1 hm
    exact ⟨t, List.mem_of_getElem? hk, ((h.token_reads hk).2 u).2.1.1 ⟨m, c, hr, hc⟩⟩

/-- A token that is spelled out is followed to a state that finishes and belongs to the token. -/
theorem Built.spells_iff (h : Built d g) :
    d.Spells kind u ↔ ∃ m c, g.lexical.Readable g.tokenSeeds u m ∧ g.lexical.Reaches m c ∧ g.lexical.CanFinish c ∧
      (g.lexical.owner? c.state).bind g.kindOfRule? = some kind := by
  constructor
  · rintro ⟨t, hk, hd⟩
    obtain ⟨-, -, hderives, howner⟩ := (h.token_reads hk).2 u
    obtain ⟨m, c, hr, hm, hf⟩ := hderives.2 hd
    refine ⟨m, c, h.readable_iff.2 ⟨kind, t, hk, hr⟩, hm, hf, ?_⟩
    rw [howner m c hr hm hf]
    exact h.kindOfRule? hk
  · rintro ⟨m, c, hm, hreach, hf, hkind⟩
    obtain ⟨k, t, hk, hr⟩ := h.readable_iff.1 hm
    obtain ⟨-, -, hderives, howner⟩ := (h.token_reads hk).2 u
    rw [howner m c hr hreach hf] at hkind
    have hkk : g.kindOfRule? k = some kind := hkind
    rw [h.kindOfRule? hk] at hkk
    cases hkk
    exact ⟨t, hk, hderives.1 ⟨m, c, hr, hreach, hf⟩⟩

end Declarations

namespace Grammar

variable {d : Declarations} {g : Grammar} {limits : Limits} {configs frontier : List Configuration} {u : List Char}
  {best : Option Munch}

/-- The lowest kind among the tokens that are spelled out. -/
theorem matchedKind?_spec (h : d.Built g) (he : (g.lexical.closure limits configs).Exhaustive)
    (hc : ∀ c, c ∈ configs ↔ g.lexical.Readable g.tokenSeeds u c) :
    (g.matchedKind? (g.lexical.closure limits configs) = none → ∀ kind, ¬ d.Spells kind u) ∧
      ∀ kind, g.matchedKind? (g.lexical.closure limits configs) = some kind →
        d.Spells kind u ∧ ∀ kind', d.Spells kind' u → kind ≤ kind' := by
  have hmem : ∀ kind, kind ∈ ((g.lexical.closure limits configs).completed.filterMap fun c =>
      (g.lexical.owner? c.state).bind g.kindOfRule?) ↔ d.Spells kind u := by
    intro kind
    rw [h.spells_iff, List.mem_filterMap]
    constructor
    · rintro ⟨c, hm, hk⟩
      obtain ⟨hv, hf⟩ := Network.mem_completed_iff.1 hm
      obtain ⟨m, hm, hreach⟩ := Network.reachable_of_mem_visited hv
      exact ⟨m, c, (hc m).1 hm, hreach, hf, hk⟩
    · rintro ⟨m, c, hm, hreach, hf, hk⟩
      refine ⟨c, Network.mem_completed_iff.2 ⟨?_, hf⟩, hk⟩
      exact (Network.mem_visited_iff_of_exhaustive he).2 ⟨m, (hc m).2 hm, hreach⟩
  unfold matchedKind?
  constructor
  · intro hn kind hs
    rw [List.min?_eq_none_iff] at hn
    have hk := (hmem kind).2 hs
    rw [hn] at hk
    cases hk
  · intro kind hk
    obtain ⟨hk, hmin⟩ := List.min?_eq_some_iff.1 hk
    exact ⟨(hmem kind).1 hk, fun kind' hs => hmin kind' ((hmem kind').2 hs)⟩

/-- The frontier holds all places where a token can go on behind the text. -/
def IsFrontier (g : Grammar) (u : List Char) (frontier : List Configuration) : Prop :=
  ∀ c, c ∈ frontier ↔
    ∃ m, g.lexical.Readable g.tokenSeeds u m ∧ g.lexical.Reaches m c ∧ g.lexical.CanConsume c.state

theorem isFrontier_closure (he : (g.lexical.closure limits configs).Exhaustive)
    (hc : ∀ c, c ∈ configs ↔ g.lexical.Readable g.tokenSeeds u c) :
    g.IsFrontier u (g.lexical.closure limits configs).frontier := by
  intro c
  rw [Network.mem_frontier_iff, Network.mem_visited_iff_of_exhaustive he]
  constructor
  · rintro ⟨⟨m, hm, hreach⟩, hx⟩
    exact ⟨m, (hc m).1 hm, hreach, hx⟩
  · rintro ⟨m, hm, hreach, hx⟩
    exact ⟨⟨m, (hc m).2 hm, hreach⟩, hx⟩

theorem IsFrontier.mem_step_iff (hF : g.IsFrontier u frontier) {x : Char} {c : Configuration} :
    c ∈ g.lexical.step frontier x ↔ g.lexical.Readable g.tokenSeeds (u ++ [x]) c := by
  rw [Network.mem_step_iff]
  constructor
  · rintro ⟨c₀, h₀, hx⟩
    obtain ⟨m, ⟨seed, hs, hu⟩, hreach, -⟩ := (hF c₀).1 h₀
    exact ⟨seed, hs, Network.reads_append_iff.2 ⟨m, hu, .cons hreach hx (.nil c)⟩⟩
  · rintro ⟨seed, hs, hr⟩
    obtain ⟨m, hu, hx⟩ := Network.reads_append_iff.1 hr
    cases hx with
    | cons hreach hx hn =>
      cases hn
      refine ⟨_, (hF _).2 ⟨m, ⟨seed, hs, hu⟩, hreach, ?_⟩, hx⟩
      cases hx with
      | mk h => exact ⟨_, _, h⟩

/-! ### The loop of a scan -/

variable {read : Nat} {stats : Stats} {c : Char} {cs : List Char}

theorem scanFrom_cons_of_eq_nil (hs : g.lexical.step frontier c = []) :
    g.scanFrom limits frontier read best stats (c :: cs) = ⟨best, false, stats⟩ := by
  rw [scanFrom, hs]

theorem scanFrom_cons_of_ne_nil (hs : g.lexical.step frontier c ≠ []) :
    g.scanFrom limits frontier read best stats (c :: cs) =
      g.scanFrom limits (g.lexical.closure limits (g.lexical.step frontier c)).frontier (read + 1)
        (match g.matchedKind? (g.lexical.closure limits (g.lexical.step frontier c)) with
          | some kind => some ⟨kind, read⟩
          | none => best)
        (stats + (g.lexical.closure limits (g.lexical.step frontier c)).stats) cs := by
  rw [scanFrom]
  split
  · contradiction
  · rfl

/-- Counters only grow. -/
theorem complete_of_scanFrom (h : (g.scanFrom limits frontier read best stats cs).stats.Complete) :
    stats.Complete := by
  induction cs generalizing frontier read best stats with
  | nil => exact h
  | cons c cs ih =>
    by_cases hs : g.lexical.step frontier c = []
    · rwa [scanFrom_cons_of_eq_nil hs] at h
    · rw [scanFrom_cons_of_ne_nil hs] at h
      exact (Stats.complete_add_iff.1 (ih h)).1

/-- The best match after one more character. -/
private theorem found_concat (h : d.Built g) (he : (g.lexical.closure limits configs).Exhaustive)
    (hc : ∀ x, x ∈ configs ↔ g.lexical.Readable g.tokenSeeds (u ++ [c]) x) (hB : d.Found u best) :
    d.Found (u ++ [c]) (match g.matchedKind? (g.lexical.closure limits configs) with
      | some kind => some ⟨kind, u.length⟩
      | none => best) := by
  obtain ⟨hnone, hsome⟩ := matchedKind?_spec h he hc
  split
  · rename_i kind hk
    obtain ⟨hs, hmin⟩ := hsome kind hk
    exact .concat hs hmin
  · rename_i hk
    refine hB.congr fun kind n => ?_
    rw [Declarations.matches_concat_iff]
    refine or_iff_left ?_
    rintro ⟨-, hs⟩
    exact hnone hk kind hs

/-- Where no token can read on, neither a longer match nor a live token is missed. -/
private theorem found_of_step_eq_nil (h : d.Built g) (hF : g.IsFrontier u frontier)
    (hs : g.lexical.step frontier c = []) (hB : d.Found u best) (cs : List Char) :
    d.Found (u ++ c :: cs) best ∧ ¬ d.Live (u ++ c :: cs) := by
  -- a token that begins with the text and `c` would have a configuration behind `c`
  have hdead : ∀ v, ¬ ∃ t ∈ d.tokens, d.lexicalSystem.Viable [t.body] (u ++ c :: v) := by
    rintro v ⟨t, ht, hv⟩
    rw [List.append_cons] at hv
    obtain ⟨x, hx⟩ := h.exists_readable_iff.2 ⟨t, ht, hv.of_append⟩
    rw [← hF.mem_step_iff, hs] at hx
    cases hx
  constructor
  · refine hB.congr fun kind n => ?_
    rw [Declarations.matches_append_iff]
    refine or_iff_left ?_
    rintro ⟨hlt, -, hspells⟩
    obtain ⟨k, hk⟩ : ∃ k, n - u.length = k + 1 := ⟨n - u.length - 1, by omega⟩
    rw [hk, List.take_succ_cons] at hspells
    exact hdead _ hspells.viable
  · rintro ⟨t, ht, a, R, hy⟩
    exact hdead cs ⟨t, ht, _, hy⟩

/-- The loop invariant: with all tokens followed and the best match found so far, the loop ends with the best match of
the whole text, and it tells whether a token is live there. -/
theorem scanFrom_exact (h : d.Built g) (hF : g.IsFrontier u frontier) (hB : d.Found u best)
    (hz : (g.scanFrom limits frontier u.length best stats cs).stats.Complete) :
    d.Found (u ++ cs) (g.scanFrom limits frontier u.length best stats cs).best ∧
      ((g.scanFrom limits frontier u.length best stats cs).live = true ↔ d.Live (u ++ cs)) := by
  induction cs generalizing u frontier best stats with
  | nil =>
    rw [scanFrom, List.append_nil, h.live_iff]
    refine ⟨hB, ?_⟩
    simp only [Bool.not_eq_true', List.isEmpty_eq_false_iff_exists_mem, hF _]
    exact exists_comm
  | cons c cs ih =>
    by_cases hs : g.lexical.step frontier c = []
    · rw [scanFrom_cons_of_eq_nil hs]
      obtain ⟨hfound, hlive⟩ := found_of_step_eq_nil h hF hs hB cs
      exact ⟨hfound, by simpa using hlive⟩
    · rw [scanFrom_cons_of_ne_nil hs] at hz ⊢
      have he : (g.lexical.closure limits (g.lexical.step frontier c)).Exhaustive :=
        Network.exhaustive_closure_iff.2 (Stats.complete_add_iff.1 (complete_of_scanFrom hz)).2
      have hc : ∀ x, x ∈ g.lexical.step frontier c ↔ g.lexical.Readable g.tokenSeeds (u ++ [c]) x :=
        fun x => hF.mem_step_iff
      -- frontier and best match are those of `u ++ [c]`, from where the loop goes on
      have hlen : u.length + 1 = (u ++ [c]).length := by simp
      have hB' := found_concat h he hc hB
      rw [hlen] at hz ⊢
      rw [List.append_cons]
      exact ih (isFrontier_closure he hc) hB' hz

/-- A scan whose closures are exhaustive finds the longest match, and tells whether a token is live at the end. -/
theorem scan_exact (h : d.Built g) (hz : (g.scan limits cs).stats.Complete) :
    d.Found cs (g.scan limits cs).best ∧ ((g.scan limits cs).live = true ↔ d.Live cs) := by
  unfold scan at hz ⊢
  have he : (g.lexical.closure limits g.tokenSeeds).Exhaustive :=
    Network.exhaustive_closure_iff.2 (complete_of_scanFrom hz)
  have hc : ∀ c, c ∈ g.tokenSeeds ↔ g.lexical.Readable g.tokenSeeds [] c := by
    intro c
    constructor
    · exact fun hs => ⟨c, hs, .nil c⟩
    · rintro ⟨seed, hs, hr⟩
      cases hr
      exact hs
  have hB : d.Found [] none := by
    rintro kind n ⟨hpos, hle, -⟩
    rw [List.length_nil] at hle
    omega
  exact scanFrom_exact h (isFrontier_closure he hc) hB hz

end Grammar

end Typeahead
