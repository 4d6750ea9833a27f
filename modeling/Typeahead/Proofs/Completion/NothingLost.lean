import Typeahead.Proofs.Completion.Cursor
import Typeahead.Proofs.Completion.MaximalMunch

/-!
# Reading loses nothing

Whatever the limits, a match that a scan finds is one (`matches_of_scan`): a limit may hide matches, but it makes none.
So each token covers just the bytes of its text, and all that stands between tokens has been read as tokens that are
dropped (`Accounts`).  Reading fails at a place up to which all has been matched (`Stops`).  Together they say where
each byte of a text has gone (`tokenize_loses_nothing`).
-/

namespace Typeahead

/-! ### Stretches of a text -/

section Stretches

variable {cs ds part : List Char} {start stop : Nat}

theorem Slices.isBoundary_start (h : Slices cs start stop part) : IsBoundary cs start := by
  obtain ⟨pre, post, rfl, hstart, -⟩ := h
  exact ⟨pre, part ++ post, List.append_assoc .., hstart⟩

theorem Slices.isBoundary_stop (h : Slices cs start stop part) : IsBoundary cs stop := by
  obtain ⟨pre, post, rfl, -, hstop⟩ := h
  exact ⟨pre ++ part, post, rfl, by rw [byteLength_append, hstop]⟩

theorem slices_append (pre part post : List Char) :
    Slices (pre ++ part ++ post) (byteLength pre) (byteLength (pre ++ part)) part :=
  ⟨pre, post, rfl, rfl, (byteLength_append ..).symm⟩

theorem byteLength_pos (h : cs ≠ []) : 0 < byteLength cs := by
  obtain ⟨c, cs, rfl⟩ := List.exists_cons_of_ne_nil h
  exact Nat.lt_of_lt_of_le c.utf8Size_pos (Nat.le_add_right _ _)

end Stretches

/-- What the tokens leave open of the bytes from `start` to `stop`: before the first of them, between two that follow
each other, and behind the last. -/
def gapsBetween (start : Nat) : List Token → Nat → List (Nat × Nat)
  | [], stop => [(start, stop)]
  | x :: tokens, stop => (start, x.start) :: gapsBetween x.stop tokens stop

/-- Where the unfinished rest begins, or else the end of the text. -/
def Tokenization.confirmedStop (t : Tokenization) (text : List Char) : Nat :=
  (t.unfinished.map (·.start)).getD (byteLength text)

namespace Declarations

/-- The characters fall into pieces, and each is spelled by some token of the given kinds. -/
def Splits (d : Declarations) (kinds : TokenKind → Prop) (cs : List Char) : Prop :=
  ∃ pieces : List (List Char), cs = pieces.flatten ∧
    ∀ piece ∈ pieces, piece ≠ [] ∧ ∃ kind, kinds kind ∧ d.Spells kind piece

/-- The tokens and the unfinished rest account for each byte of the text from `origin` on. -/
structure Accounts (d : Declarations) (text : List Char) (origin : Nat) (t : Tokenization) : Prop where
  /-- A token covers the bytes of its text, at least one, and its lexical expression derives the text. -/
  token : ∀ x ∈ t.tokens, origin ≤ x.start ∧ x.start < x.stop ∧ IsBoundary text x.start ∧ IsBoundary text x.stop ∧
    Slices text x.start x.stop x.text.toList ∧ d.Spells x.kind x.text.toList
  /-- Tokens stand in order and do not overlap. -/
  ordered : t.tokens.Pairwise fun x y => x.stop ≤ y.start
  /-- What the tokens leave open has been read as tokens that are dropped. -/
  gap : ∀ gap ∈ gapsBetween origin t.tokens (t.confirmedStop text),
    ∃ part, Slices text gap.1 gap.2 part ∧ d.Splits d.Skips part
  /-- The unfinished rest is the end of the text. -/
  rest : ∀ u, t.unfinished = some u → u.text ≠ "" ∧ IsBoundary text u.start ∧
    Slices text u.start (byteLength text) u.text.toList

/-- The error tells a place inside the text up to which all has been matched, and shows how the text goes on there. -/
structure Stops (d : Declarations) (text : List Char) (e : LexicalError) : Prop where
  boundary : IsBoundary text e.position
  lt_length : e.position < byteLength text
  split : ∃ before rest, text = before ++ rest ∧ byteLength before = e.position ∧ d.Splits (fun _ => True) before ∧
    e.snippet.toList = rest.take 20

variable {d : Declarations} {kinds : TokenKind → Prop} {cs ds : List Char} {kind : TokenKind} {n : Nat}

theorem splits_nil : d.Splits kinds [] := ⟨[], rfl, by simp⟩

theorem Splits.append (h : d.Splits kinds cs) (h' : d.Splits kinds ds) : d.Splits kinds (cs ++ ds) := by
  obtain ⟨pieces, rfl, hp⟩ := h
  obtain ⟨pieces', rfl, hp'⟩ := h'
  exact ⟨pieces ++ pieces', List.flatten_append.symm, List.forall_mem_append.2 ⟨hp, hp'⟩⟩

/-- A match is a piece. -/
theorem Matches.splits (h : d.Matches cs kind n) (hk : kinds kind) : d.Splits kinds (cs.take n) := by
  obtain ⟨hpos, hle, hs⟩ := h
  refine ⟨[cs.take n], by simp, List.forall_mem_singleton.2 ⟨?_, kind, hk, hs⟩⟩
  rw [← List.length_pos_iff, List.length_take]
  omega

variable {text : List Char} {origin : Nat} {t t' : Tokenization}

/-- Counters do not matter. -/
theorem Accounts.congr (h : d.Accounts text origin t) (ht : t'.tokens = t.tokens)
    (hu : t'.unfinished = t.unfinished) : d.Accounts text origin t' := by
  obtain ⟨htoken, hordered, hgap, hrest⟩ := h
  rw [Tokenization.confirmedStop, ← hu] at hgap
  rw [← ht] at htoken hordered hgap
  rw [← hu] at hrest
  exact ⟨htoken, hordered, hgap, hrest⟩

/-- One more token in front of the others. -/
theorem Accounts.cons {x : Token} (h : d.Accounts text x.stop t) (ht : t'.tokens = x :: t.tokens)
    (hu : t'.unfinished = t.unfinished) (hlt : x.start < x.stop) (hx : Slices text x.start x.stop x.text.toList)
    (hspells : d.Spells x.kind x.text.toList) {part : List Char} (hle : origin ≤ x.start)
    (hpart : Slices text origin x.start part) (hdropped : d.Splits d.Skips part) : d.Accounts text origin t' := by
  refine ⟨?_, ?_, ?_, hu ▸ h.rest⟩
  · rw [ht, List.forall_mem_cons]
    refine ⟨⟨hle, hlt, hx.isBoundary_start, hx.isBoundary_stop, hx, hspells⟩, fun y hy => ?_⟩
    obtain ⟨hstart, hy⟩ := h.token y hy
    exact ⟨by omega, hy⟩
  · rw [ht, List.pairwise_cons]
    exact ⟨fun y hy => (h.token y hy).1, h.ordered⟩
  · rw [ht, gapsBetween, List.forall_mem_cons, Tokenization.confirmedStop, hu]
    exact ⟨⟨part, hpart, hdropped⟩, h.gap⟩

end Declarations

namespace Grammar

variable {d : Declarations} {g : Grammar} {limits : Limits} {u cs : List Char} {configs frontier : List Configuration}
  {best : Option Munch} {munch : Munch}

/-! ### What a scan finds -/

/-- A token that is found to match the text read so far is spelled by it, whether or not the closure is exhaustive. -/
theorem spells_of_matchedKind? (h : d.Built g) (hc : ∀ c ∈ configs, g.lexical.Readable g.tokenSeeds u c)
    {kind : TokenKind} (hk : g.matchedKind? (g.lexical.closure limits configs) = some kind) : d.Spells kind u := by
  obtain ⟨c, hm, hk⟩ := List.mem_filterMap.1 (List.min?_eq_some_iff.1 hk).1
  obtain ⟨hv, hf⟩ := Network.mem_completed_iff.1 hm
  obtain ⟨m, hm, hreach⟩ := Network.reachable_of_mem_visited hv
  exact h.spells_iff.2 ⟨m, c, hc m hm, hreach, hf, hk⟩

/-- The best match so far is a match. -/
def Sound (d : Declarations) (u : List Char) (best : Option Munch) : Prop :=
  ∀ munch, best = some munch → d.Matches u munch.kind (munch.extra + 1)

/-- One more character: what is followed has read it, and a match that is found is one. -/
theorem sound_step (h : d.Built g) (limits : Limits) (c : Char)
    (hF : ∀ x ∈ frontier, ∃ m, g.lexical.Readable g.tokenSeeds u m ∧ g.lexical.Reaches m x) (hB : Sound d u best) :
    (∀ x ∈ g.lexical.step frontier c, g.lexical.Readable g.tokenSeeds (u ++ [c]) x) ∧
      Sound d (u ++ [c]) (match g.matchedKind? (g.lexical.closure limits (g.lexical.step frontier c)) with
        | some kind => some ⟨kind, u.length⟩
        | none => best) := by
  have hstep : ∀ x ∈ g.lexical.step frontier c, g.lexical.Readable g.tokenSeeds (u ++ [c]) x := by
    intro x hx
    obtain ⟨x₀, h₀, hx⟩ := Network.mem_step_iff.1 hx
    obtain ⟨m, ⟨seed, hs, hu⟩, hreach⟩ := hF x₀ h₀
    exact ⟨seed, hs, Network.reads_append_iff.2 ⟨m, hu, .cons hreach hx (.nil x)⟩⟩
  refine ⟨hstep, fun munch hm => ?_⟩
  split at hm
  · rename_i kind hk
    cases hm
    exact Declarations.matches_concat_iff.2 (Or.inr ⟨rfl, spells_of_matchedKind? h hstep hk⟩)
  · exact Declarations.matches_concat_iff.2 (Or.inl (hB munch hm))

theorem sound_scanFrom (h : d.Built g) {stats : Stats}
    (hF : ∀ x ∈ frontier, ∃ m, g.lexical.Readable g.tokenSeeds u m ∧ g.lexical.Reaches m x) (hB : Sound d u best) :
    Sound d (u ++ cs) (g.scanFrom limits frontier u.length best stats cs).best := by
  induction cs generalizing u frontier best stats with
  | nil => rwa [List.append_nil]
  | cons c cs ih =>
    by_cases hs : g.lexical.step frontier c = []
    · rw [scanFrom_cons_of_eq_nil hs]
      exact fun munch hm => Declarations.matches_append_iff.2 (Or.inl (hB munch hm))
    · rw [scanFrom_cons_of_ne_nil hs]
      obtain ⟨hstep, hB'⟩ := sound_step h limits c hF hB
      have hlen : u.length + 1 = (u ++ [c]).length := by simp
      rw [hlen, List.append_cons]
      refine ih (fun x hx => ?_) hB'
      obtain ⟨m, hm, hreach⟩ := Network.reachable_of_mem_visited (Network.mem_frontier_iff.1 hx).1
      exact ⟨m, hstep m hm, hreach⟩

/-- The best match of a scan is a match, whatever the limits. -/
theorem matches_of_scan (h : d.Built g) (hb : (g.scan limits cs).best = some munch) :
    d.Matches cs munch.kind (munch.extra + 1) := by
  refine sound_scanFrom h (u := []) (fun x hx => ?_) (fun _ hm => by cases hm) munch hb
  obtain ⟨seed, hs, hreach⟩ := Network.reachable_of_mem_visited (Network.mem_frontier_iff.1 hx).1
  exact ⟨seed, ⟨seed, hs, .nil seed⟩, hreach⟩

/-! ### Where the bytes go -/

variable {position : Nat} {r : Except LexicalError Tokenization}

/-- A confirmed token in front of what is accounted for covers the bytes of its match. -/
theorem accounts_withMatch {pre skipped : List Char} {following : Tokenization}
    (hmatch : d.Matches cs munch.kind (munch.extra + 1)) (hskip : g.skips munch.kind = false)
    (hs : d.Splits d.Skips skipped)
    (h : d.Accounts (pre ++ skipped ++ cs) (byteLength (pre ++ skipped ++ cs.take (munch.extra + 1))) following) :
    d.Accounts (pre ++ skipped ++ cs) (byteLength pre)
      (g.withMatch limits (byteLength (pre ++ skipped)) cs munch following) := by
  have hslice := slices_append (pre ++ skipped) (cs.take (munch.extra + 1)) (cs.drop (munch.extra + 1))
  rw [List.append_assoc, List.take_append_drop, byteLength_append (pre ++ skipped)] at hslice
  rw [byteLength_append (pre ++ skipped)] at h
  have hnonempty : cs.take (munch.extra + 1) ≠ [] := by
    rw [← List.length_pos_iff, List.length_take]
    exact Nat.lt_min.2 ⟨hmatch.1, Nat.lt_of_lt_of_le hmatch.1 hmatch.2.1⟩
  refine Declarations.Accounts.cons (x := tokenOf (byteLength (pre ++ skipped)) cs munch) h
    (by rw [tokens_withMatch, hskip, if_neg Bool.false_ne_true]) rfl ?_ ?_ ?_ ?_ (slices_append pre skipped cs) hs
  · exact Nat.lt_add_of_pos_right (byteLength_pos hnonempty)
  · rwa [tokenOf, String.toList_ofList]
  · rw [tokenOf, String.toList_ofList]
    exact hmatch.2.2
  · rw [tokenOf, byteLength_append]
    exact Nat.le_add_right _ _

/-- Reading goes on behind `pre`, which is covered up to its end, and `skipped`, which has been dropped since. -/
theorem Tokenizes.accounts (hg : d.Built g) (h : g.Tokenizes limits position cs r) {t : Tokenization} (hr : r = .ok t)
    (pre skipped : List Char) (hp : position = byteLength (pre ++ skipped)) (hs : d.Splits d.Skips skipped) :
    d.Accounts (pre ++ skipped ++ cs) (byteLength pre) t := by
  induction h generalizing t pre skipped with
  | finished =>
    cases hr
    have hgap := slices_append pre skipped []
    rw [List.append_nil] at hgap ⊢
    exact ⟨by simp, .nil, List.forall_mem_singleton.2 ⟨skipped, hgap, hs⟩, nofun⟩
  | @ended position cs munch hb hskip hn =>
    cases hr
    have hm := matches_of_scan hg hb
    have hall := hs.append (hm.splits (hg.skips_iff.1 hskip))
    rw [List.take_of_length_le hn] at hall
    have hgap := slices_append pre (skipped ++ cs) []
    refine ⟨by simp, .nil, List.forall_mem_singleton.2 ⟨skipped ++ cs, ?_, hall⟩, nofun⟩
    simpa [Tokenization.confirmedStop] using hgap
  | @unfinished position cs hcs hl =>
    cases hr
    subst hp
    have hrest := slices_append (pre ++ skipped) cs []
    rw [List.append_nil] at hrest
    refine ⟨by simp, .nil, List.forall_mem_singleton.2 ⟨skipped, slices_append pre skipped cs, hs⟩, ?_⟩
    rintro u hu
    cases hu
    refine ⟨by simpa using hcs, hrest.isBoundary_start, ?_⟩
    rwa [String.toList_ofList]
  | stuck => cases hr
  | @confirmed position cs munch r hm _ ih =>
    obtain ⟨following, hf, rfl⟩ := except_map_eq_ok.1 hr
    subst hp
    have hmatch := matches_of_scan hg hm.best
    have htext : pre ++ skipped ++ cs.take (munch.extra + 1) ++ cs.drop (munch.extra + 1) = pre ++ skipped ++ cs := by
      rw [List.append_assoc, List.take_append_drop]
    by_cases hskip : g.skips munch.kind = true
    · -- the match joins what has been dropped before
      have hall := hs.append (hmatch.splits (hg.skips_iff.1 hskip))
      have hrest := ih hf pre _ (by rw [← List.append_assoc, byteLength_append (pre ++ skipped)]) hall
      rw [← List.append_assoc, htext] at hrest
      exact hrest.congr (by rw [tokens_withMatch, if_pos hskip]) rfl
    · -- the match is a token, behind which nothing has been dropped yet
      have hrest := ih hf (pre ++ skipped ++ cs.take (munch.extra + 1)) []
        (by rw [List.append_nil, byteLength_append (pre ++ skipped)]) Declarations.splits_nil
      rw [List.append_nil, htext] at hrest
      exact accounts_withMatch hmatch (Bool.eq_false_iff.2 hskip) hs hrest

/-- Up to the place where reading fails, one match follows the other. -/
theorem Tokenizes.stops (hg : d.Built g) (h : g.Tokenizes limits position cs r) {e : LexicalError} (hr : r = .error e)
    (pre : List Char) (hp : position = byteLength pre) (hs : d.Splits (fun _ => True) pre) : d.Stops (pre ++ cs) e := by
  induction h generalizing pre with
  | finished => cases hr
  | ended => cases hr
  | unfinished => cases hr
  | @stuck position cs hcs =>
    cases hr
    subst hp
    refine ⟨⟨pre, cs, rfl, rfl⟩, ?_, pre, cs, rfl, rfl, hs, by rw [String.toList_ofList, snippetLength]⟩
    rw [byteLength_append]
    exact Nat.lt_add_of_pos_right (byteLength_pos hcs)
  | @confirmed position cs munch r hm _ ih =>
    have hmatch : d.Splits (fun _ => True) _ := (matches_of_scan hg hm.best).splits trivial
    have hrest := ih (except_map_eq_error.1 hr) (pre ++ cs.take (munch.extra + 1)) (by simp [hp])
      (hs.append hmatch)
    rwa [List.append_assoc, List.take_append_drop] at hrest

/-- Whatever the limits: if a text is read, its tokens and the unfinished rest account for each of its bytes, and
otherwise the error tells a place inside it up to which all has been matched. -/
theorem tokenize_loses_nothing (hd : d.build = .ok g) (limits : Limits) (text : String) :
    (∀ t, g.tokenize limits text = .ok t → d.Accounts text.toList 0 t) ∧
      ∀ e, g.tokenize limits text = .error e → d.Stops text.toList e := by
  have hg := Declarations.built_of_build hd
  have h := g.tokenizes_tokenizeFrom limits 0 text.toList
  constructor
  · exact fun t ht => h.accounts hg ht [] [] rfl Declarations.splits_nil
  · exact fun e he => h.stops hg he [] rfl Declarations.splits_nil

/-- Between a keyword and the beginning of a word stand blanks; if nothing may be explored, reading stops at once. -/
theorem words_lose_nothing :
    words.Accounts "ab  abc".toList 0 ⟨[⟨0, "ab", 0, 2⟩], some ⟨"abc", 4⟩, ⟨67, 0, 0⟩⟩ ∧
      words.Stops "ab  abc".toList ⟨0, "ab  abc"⟩ := by
  have hd : words.build = .ok wordsGrammar := by cbv
  have ht : wordsGrammar.tokenize {} "ab  abc" = .ok ⟨[⟨0, "ab", 0, 2⟩], some ⟨"abc", 4⟩, ⟨67, 0, 0⟩⟩ := by cbv
  have he : wordsGrammar.tokenize ⟨0, 0⟩ "ab  abc" = .error ⟨0, "ab  abc"⟩ := by cbv
  exact ⟨(tokenize_loses_nothing hd {} "ab  abc").1 _ ht, (tokenize_loses_nothing hd ⟨0, 0⟩ "ab  abc").2 _ he⟩

end Grammar

end Typeahead
