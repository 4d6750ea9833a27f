import Typeahead.Proofs.Completion.ClosedWords
import Typeahead.Proofs.Completion.LiteralTokens
import Typeahead.Proofs.Network.CallFree

/-!
# Spellings between blanks

Typing a spelling and a space confirms the spelling if blanks keep the tokens of the grammar apart (`BlankSeparated`):
one token stands for runs of blanks and is dropped, no other token begins with a blank, and a space closes each
spelling.  Blanks in front of a spelling are then a token of their own (`BlankSeparated.confirms_blanks`), and the
spelling is the only token of what follows (`BlankSeparated.tokenizeFrom_spelling`).
-/

namespace Typeahead

namespace Grammar

variable {d : Declarations} {g : Grammar} {limits : Limits} {cs : List Char}

/-! ### Scans that are not cut short -/

private theorem complete_scanFrom {P : Nat → Configuration → Prop}
    (hclosure : ∀ n seeds, (∀ c ∈ seeds, P n c) → (g.lexical.closure limits seeds).Exhaustive ∧
      ∀ c ∈ (g.lexical.closure limits seeds).visited, P n c)
    (hstep : ∀ n frontier x, (∀ c ∈ frontier, P n c) → ∀ c ∈ g.lexical.step frontier x, P (n + 1) c)
    {frontier : List Configuration} {n read : Nat} {best : Option Munch} {stats : Stats} (hs : ∀ c ∈ frontier, P n c)
    (hstats : stats.Complete) : (g.scanFrom limits frontier read best stats cs).stats.Complete := by
  induction cs generalizing frontier n read best stats with
  | nil => exact hstats
  | cons x cs ih =>
    by_cases hnil : g.lexical.step frontier x = []
    · rwa [scanFrom_cons_of_eq_nil hnil]
    · rw [scanFrom_cons_of_ne_nil hnil]
      obtain ⟨he, hvisited⟩ := hclosure (n + 1) _ (hstep n frontier x hs)
      refine ih (fun c hc => hvisited c (Network.mem_frontier_iff.1 hc).1) ?_
      exact Stats.complete_add_iff.2 ⟨hstats, Network.exhaustive_closure_iff.1 he⟩

/-- If the configurations that are reached with each number of characters satisfy a predicate, and closures of such
configurations are exhaustive, then no scan is cut short. -/
theorem complete_scan_of_kept (P : Nat → Configuration → Prop) (hseeds : ∀ c ∈ g.tokenSeeds, P 0 c)
    (hclosure : ∀ n seeds, (∀ c ∈ seeds, P n c) → (g.lexical.closure limits seeds).Exhaustive ∧
      ∀ c ∈ (g.lexical.closure limits seeds).visited, P n c)
    (hstep : ∀ n frontier x, (∀ c ∈ frontier, P n c) → ∀ c ∈ g.lexical.step frontier x, P (n + 1) c)
    (cs : List Char) : (g.scan limits cs).stats.Complete := by
  obtain ⟨he, hvisited⟩ := hclosure 0 g.tokenSeeds hseeds
  refine complete_scanFrom hclosure hstep (fun c hc => hvisited c (Network.mem_frontier_iff.1 hc).1) ?_
  exact Network.exhaustive_closure_iff.1 he

/-- Without calls in the lexical network, a limit above the number of its states cuts no scan short. -/
theorem complete_scan (h : d.Built g) (hf : g.lexical.CallFree) (hr : 1 ≤ limits.reentry)
    (hlt : g.lexical.states.size < limits.configurations) (cs : List Char) :
    (g.scan limits cs).stats.Complete := by
  have hn := h.inRange_lexical
  refine complete_scan_of_kept (fun _ c => g.lexical.IsState c) (fun c hc => ?_) (fun _ _ hs => ?_)
    (fun _ _ _ hs c hc => ?_) cs
  · obtain ⟨k, t, hk, rfl⟩ := h.mem_tokenSeeds_iff.1 hc
    exact ⟨hn.start_lt (h.token_reads hk).1, rfl⟩
  · exact ⟨hf.exhaustive_closure hn hr hlt hs, fun c hc => Network.isState_of_mem_visited hn hf hs hc⟩
  · exact Network.isState_of_mem_step hn hs hc

end Grammar

namespace Declarations

/-- Blanks, which one token drops, keep the tokens of the grammar apart. -/
structure BlankSeparated (d : Declarations) (g : Grammar) (blank : TokenKind) (atom : LexAtom) : Prop where
  build : d.build = .ok g
  /-- The token for blanks is a run of them. -/
  body : ∃ name, d.tokens[blank]? = some ⟨name, .many1 (.atom atom), true⟩
  space : atom.Accepts ' '
  /-- No other token is dropped, … -/
  dropped : ∀ {kind}, d.Skips kind → kind = blank
  /-- … and no other token begins with a blank. -/
  first : ∀ {kind t x}, d.tokens[kind]? = some t → atom.Accepts x → d.lexicalSystem.Viable [t.body] [x] → kind = blank
  /-- A space closes what a token is completed to. -/
  closes : ∀ {kind s}, s ∈ g.spellings kind → d.Closes kind s.toList ' '

variable {d : Declarations} {g : Grammar} {blank kind : TokenKind} {atom : LexAtom} {s : String} {cs : List Char}

namespace BlankSeparated

theorem built (h : d.BlankSeparated g blank atom) : Built d g := built_of_build h.build

theorem skips_iff (h : d.BlankSeparated g blank atom) : g.skips kind = true ↔ kind = blank := by
  rw [h.built.skips_iff]
  refine ⟨h.dropped, ?_⟩
  rintro rfl
  obtain ⟨name, hblank⟩ := h.body
  exact ⟨_, hblank, rfl⟩

/-! ### Blanks -/

/-- What the token for blanks begins with are blanks. -/
theorem accepts_of_viable (h : d.BlankSeparated g blank atom) {t : TokenDecl} (ht : d.tokens[blank]? = some t)
    (hv : d.lexicalSystem.Viable [t.body] cs) : ∀ x ∈ cs, atom.Accepts x := by
  obtain ⟨name, hblank⟩ := h.body
  cases ht.symm.trans hblank
  exact RuleSystem.accepts_of_viable_many1 hv

/-- A token that goes on from a blank is the one for blanks. -/
theorem eq_blank_of_viable (h : d.BlankSeparated g blank atom) {t : TokenDecl} (ht : d.tokens[kind]? = some t)
    {x : Char} (hx : atom.Accepts x) (hv : d.lexicalSystem.Viable [t.body] (x :: cs)) : kind = blank :=
  h.first ht hx (RuleSystem.Viable.of_append (u := [x]) hv)

theorem munches_space (h : d.BlankSeparated g blank atom) : d.Munches [' '] blank 1 := by
  obtain ⟨name, hblank⟩ := h.body
  refine ⟨⟨Nat.one_pos, Nat.le_refl 1, _, hblank, RuleSystem.derives_many1_singleton h.space⟩, ?_⟩
  rintro kind' n' ⟨hpos, hle, t, ht, hd⟩
  obtain rfl : n' = 1 := Nat.le_antisymm hle hpos
  exact Or.inr ⟨rfl, Nat.le_of_eq (h.first ht h.space hd.viable).symm⟩

/-! ### Spellings -/

/-- Blanks in front of a spelling remain the longest match. -/
theorem munches_blanks (h : d.BlankSeparated g blank atom) (hm : d.Munches cs blank cs.length)
    (hs : s ∈ g.spellings kind) (hk : kind ≠ blank) (ds : List Char) :
    d.Munches (cs ++ (s.toList ++ ds)) blank cs.length ∧ ¬ d.Live (cs ++ (s.toList ++ ds)) := by
  obtain ⟨c, s', hc⟩ := List.exists_cons_of_ne_nil (h.closes hs).nonempty
  rw [hc, List.cons_append]
  -- the spelling does not begin with a blank, so no token reaches it from the blanks
  have hfirst : ¬ atom.Accepts c := by
    intro hx
    obtain ⟨t, ht, hd⟩ := (h.closes hs).spells
    rw [hc] at hd
    exact hk (h.eq_blank_of_viable ht hx hd.viable)
  have hdead : ∀ v, ∀ t ∈ d.tokens, ¬ d.lexicalSystem.Viable [t.body] (cs ++ c :: v) := by
    intro v t ht hv
    obtain ⟨hpos, -, hblanks⟩ := hm.1
    rw [List.take_length] at hblanks
    obtain ⟨tb, htb, hd⟩ := hblanks
    obtain ⟨x, cs', rfl⟩ := List.exists_cons_of_ne_nil (List.length_pos_iff.1 hpos)
    have hx := h.accepts_of_viable htb hd.viable x (List.mem_cons_self ..)
    obtain ⟨k, htk⟩ := List.mem_iff_getElem?.1 ht
    obtain rfl := h.eq_blank_of_viable htk hx hv
    exact hfirst (h.accepts_of_viable htk hv c (List.mem_append_right _ (List.mem_cons_self ..)))
  refine ⟨⟨matches_append_iff.2 (Or.inl hm.1), fun kind' n' hm' => ?_⟩, fun hl => ?_⟩
  · rcases matches_append_iff.1 hm' with hm' | ⟨hlt, -, hspells⟩
    · exact hm.2 kind' n' hm'
    · obtain ⟨k, hk⟩ : ∃ k, n' - cs.length = k + 1 := ⟨n' - cs.length - 1, by omega⟩
      rw [hk, List.take_succ_cons] at hspells
      obtain ⟨t, ht, hv⟩ := hspells.viable
      exact absurd hv (hdead _ t ht)
  · obtain ⟨t, ht, hv⟩ := hl.viable
    exact hdead _ t ht hv

/-! ### Reading -/

variable {limits : Limits}

theorem tokenizeFrom_space (h : d.BlankSeparated g blank atom) (hz : ∀ cs, (g.scan limits cs).stats.Complete)
    (position : Nat) : ∃ stats, g.tokenizeFrom limits position [' '] = .ok ⟨[], none, stats⟩ := by
  have hb : (g.scan limits [' ']).best = some ⟨blank, 0⟩ := Grammar.best_of_munches h.built (hz [' ']) h.munches_space
  have hskip : g.skips blank = true := h.skips_iff.2 rfl
  rw [Grammar.tokenizeFrom]
  simp [hb, hskip]

/-- A spelling in front of a space is confirmed, and it is the only token. -/
theorem tokenizeFrom_spelling (h : d.BlankSeparated g blank atom) (hz : ∀ cs, (g.scan limits cs).stats.Complete)
    (hs : s ∈ g.spellings kind) (hk : kind ≠ blank) (position : Nat) :
    ∃ stats, g.tokenizeFrom limits position (s.toList ++ [' ']) =
      .ok ⟨[⟨kind, s, position, position + byteLength s.toList⟩], none, stats⟩ := by
  have hskip : g.skips kind = false := Bool.eq_false_iff.2 fun hskip => hk (h.skips_iff.1 hskip)
  obtain ⟨stats, hspace⟩ := h.tokenizeFrom_space hz (position + byteLength s.toList)
  obtain ⟨stats', hword⟩ := (h.closes hs).tokenizeFrom_eq h.built hz [] position
  rw [hword, hspace, hskip]
  exact ⟨stats' + stats, by simp [Except.map]⟩

/-- Blanks at the end of a text are a token of their own when a spelling follows. -/
theorem confirms_blanks (h : d.BlankSeparated g blank atom) (hz : ∀ cs, (g.scan limits cs).stats.Complete)
    {munch : Munch} (hb : (g.scan limits cs).best = some munch) (hskip : g.skips munch.kind = true)
    (hn : cs.length ≤ munch.extra + 1) (hs : s ∈ g.spellings kind) (hk : kind ≠ blank) :
    munch.extra + 1 = cs.length ∧ g.Confirms limits (cs ++ (s.toList ++ [' '])) munch := by
  obtain ⟨hm, -⟩ := Grammar.scan_exact h.built (hz cs)
  rw [hb] at hm
  have hlen : munch.extra + 1 = cs.length := Nat.le_antisymm hm.1.2.1 hn
  have hkind := h.skips_iff.1 hskip
  rw [Declarations.Found, hlen, hkind] at hm
  obtain ⟨hm, hl⟩ := h.munches_blanks hm hs hk [' ']
  refine ⟨hlen, .of_munches h.built (hz _) ?_ ?_ hl⟩
  · rwa [hlen, hkind]
  · rw [hlen, List.length_append, List.length_append]
    exact Nat.lt_add_of_pos_right (Nat.succ_pos _)

end BlankSeparated

end Declarations

end Typeahead
