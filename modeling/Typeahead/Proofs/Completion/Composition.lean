import Typeahead.Proofs.Completion.Advance
import Typeahead.Proofs.Completion.Blanks
import Typeahead.Proofs.Completion.GrowingInput
import Typeahead.Proofs.Completion.Suggestion
import Typeahead.Proofs.Completion.Viability
import Typeahead.Proofs.Network.Pacing

/-!
# Texts composed of words

A text may be composed of words that are each closed by what follows, with dropped ones in between and at its end.  It
is read word by word and leaves nothing unfinished (`Composed.tokenizeFrom`), so a request for it is answered by the
phrase network alone: there is a report if the network advances along the kinds of the words
(`Composed.exists_report`), and else the first word is reported at which it does not (`Composed.suggest_eq_error`).
The scans behind this may read words of any length: a limit on configurations is met if few states are on time in the
lexical network (`complete_scan_of_paced`).
-/

namespace Typeahead

namespace Network

variable {σ τ : Type} {net : Network σ τ} {limits : Limits}

theorem ne_nil_of_acceptsEnd {configs : List Configuration} (h : (net.closure limits configs).acceptsEnd = true) :
    configs ≠ [] := by
  rintro rfl
  obtain ⟨c, hc, -⟩ := acceptsEnd_iff.1 h
  rw [visited_closure_nil] at hc
  cases hc

end Network

namespace Grammar

variable {d : Declarations} {g : Grammar} {limits : Limits} {pace : List (Option Nat)} {cs : List Char}

open Network (Meets width)

/-- A limit above the number of states that are on time at any one time cuts no scan short. -/
theorem complete_scan_of_paced (h : d.Built g) (hp : g.lexical.Paced pace)
    (hstarts : ∀ k < d.tokens.length, pace[2 * k]? = some (some 0)) (hr : 1 ≤ limits.reentry)
    (hlt : ∀ n, width pace n < limits.configurations) (cs : List Char) : (g.scan limits cs).stats.Complete := by
  refine complete_scan_of_kept (Meets pace) (fun c hc => ?_) (fun n _ hs => ?_) (fun _ _ _ hs c hc => ?_) cs
  · obtain ⟨k, t, hk, rfl⟩ := h.mem_tokenSeeds_iff.1 hc
    exact ⟨Or.inr (hstarts k (List.getElem?_eq_some_iff.1 hk).1), rfl⟩
  · exact ⟨hp.exhaustive_closure hr (hlt n) hs, fun c hc => Network.meets_of_mem_visited hp hs hc⟩
  · exact Network.meets_of_mem_step hp hs hc

/-! ### Simulations -/

/-- Tokens are read from the start rule if the phrase network advances along their kinds. -/
theorem exists_simulate_of_advance (h : d.Built g) {tokens : List Token}
    (hne : g.phrase.advance limits [.initial (2 * g.startRule)] (tokens.map (·.kind)) ≠ []) :
    ∃ s, g.simulate limits tokens = .ok s ∧
      s.configurations = g.phrase.advance limits [.initial (2 * g.startRule)] (tokens.map (·.kind)) := by
  rw [simulate, phraseSeeds_eq h]
  rcases g.simulateFrom_advance limits (List.cons_ne_nil _ _) 0 tokens with ⟨s, hs, hconfigs, -⟩ | ⟨-, hnil⟩
  · exact ⟨s, hs, hconfigs⟩
  · exact absurd hnil hne

/-- The first token is reported along whose kind the phrase network does not advance. -/
theorem simulate_eq_error_of_advance (h : d.Built g) {before after : List Token} {x : Token}
    (hne : g.phrase.advance limits [.initial (2 * g.startRule)] (before.map (·.kind)) ≠ [])
    (hnil : g.phrase.advance limits [.initial (2 * g.startRule)] (before.map (·.kind) ++ [x.kind]) = []) :
    g.simulate limits (before ++ x :: after) = .error ⟨before.length, x.text, g.displayName x.kind⟩ := by
  obtain ⟨s, hs, hconfigs⟩ := exists_simulate_of_advance h hne
  have hx : x.kind ∉ (g.expectation limits s.configurations).kinds := by
    rw [mem_kinds_iff_step_ne_nil, not_not, hconfigs, ← Network.advance_concat, hnil]
  have happend := simulateFrom_append_of_ok hs (x :: after)
  rw [simulateFrom_cons_of_not_mem hx, Nat.zero_add] at happend
  exact except_map_eq_error.1 happend

end Grammar

namespace Declarations

/-- The text is composed of words that are closed by what follows them, and its end is dropped.  Those that are kept are
listed with their kinds. -/
inductive Composed (d : Declarations) : List Char → List (TokenKind × String) → Prop where
  | ending {kind : TokenKind} {u : List Char} (hm : d.Munches u kind u.length) (hs : d.Skips kind) : Composed d u []
  | kept {kind : TokenKind} {word : String} {rest : List Char} {x : Char} {words : List (TokenKind × String)}
    (h : d.Closes kind word.toList x) (hs : ¬ d.Skips kind) (hrest : Composed d (x :: rest) words) :
    Composed d (word.toList ++ x :: rest) ((kind, word) :: words)
  | dropped {kind : TokenKind} {u rest : List Char} {x : Char} {words : List (TokenKind × String)}
    (h : d.Closes kind u x) (hs : d.Skips kind) (hrest : Composed d (x :: rest) words) :
    Composed d (u ++ x :: rest) words

variable {d : Declarations} {g : Grammar} {limits : Limits} {cs : List Char} {input : String}
  {words : List (TokenKind × String)}

/-- A text that is composed of words is read word by word, and nothing is left unfinished. -/
theorem Composed.tokenizeFrom (h : d.Composed cs words) (hg : d.Built g)
    (hz : ∀ cs, (g.scan limits cs).stats.Complete) (position : Nat) :
    ∃ read, g.tokenizeFrom limits position cs = .ok read ∧ read.tokens.map (fun t => (t.kind, t.text)) = words ∧
      read.unfinished = none := by
  induction h generalizing position with
  | @ending kind u hm hs =>
    obtain ⟨c, cs, rfl⟩ := List.exists_cons_of_ne_nil (List.length_pos_iff.1 hm.1.1)
    have hb : (g.scan limits (c :: cs)).best = some ⟨kind, cs.length⟩ := Grammar.best_of_munches hg (hz _) hm
    rw [Grammar.tokenizeFrom]
    simp [hb, hg.skips_iff.2 hs]
  | @kept kind word rest x words h hs _ ih =>
    obtain ⟨stats, heq⟩ := h.tokenizeFrom_eq hg hz rest position
    obtain ⟨read, hread, hwords, hrest⟩ := ih (position + byteLength word.toList)
    have hkeep : g.skips kind = false := Bool.eq_false_iff.2 fun hskip => hs (hg.skips_iff.1 hskip)
    rw [heq, hread]
    refine ⟨_, rfl, ?_, hrest⟩
    simp only [hkeep, Bool.false_eq_true, if_false, List.map_cons, hwords, String.ofList_toList]
  | @dropped kind u rest x words h hs _ ih =>
    obtain ⟨stats, heq⟩ := h.tokenizeFrom_eq hg hz rest position
    obtain ⟨read, hread, hwords, hrest⟩ := ih (position + byteLength u)
    rw [heq, hread]
    refine ⟨_, rfl, ?_, hrest⟩
    simp only [hg.skips_iff.2 hs, if_true, hwords]

section Requests

variable (hg : d.Built g) (options : Options) (hz : ∀ cs, (g.scan options.limits cs).stats.Complete)
include hg hz

/-- There is a report, with nothing unfinished, if the phrase network advances along the kinds of the words. -/
theorem Composed.exists_report (h : d.Composed input.toList words)
    (hne : g.phrase.advance options.limits [.initial (2 * g.startRule)] (words.map (·.1)) ≠ []) :
    ∃ report, g.suggest options input = .ok report ∧ report.unfinished = none ∧
      report.acceptsEnd = (g.phrase.closure options.limits
        (g.phrase.advance options.limits [.initial (2 * g.startRule)] (words.map (·.1)))).acceptsEnd := by
  obtain ⟨read, hread, rfl, hrest⟩ := h.tokenizeFrom hg hz 0
  rw [List.map_map] at hne ⊢
  obtain ⟨s, hs, hconfigs⟩ := Grammar.exists_simulate_of_advance hg hne
  refine ⟨_, Grammar.suggest_eq_ok_iff.2 ⟨read, s, hread, hs, rfl⟩, hrest, ?_⟩
  exact congrArg (fun configs => (g.phrase.closure options.limits configs).acceptsEnd) hconfigs

/-- The first word is reported along whose kind the phrase network does not advance. -/
theorem Composed.suggest_eq_error {before after : List (TokenKind × String)} {kind : TokenKind} {word : String}
    (h : d.Composed input.toList (before ++ (kind, word) :: after))
    (hne : g.phrase.advance options.limits [.initial (2 * g.startRule)] (before.map (·.1)) ≠ [])
    (hnil : g.phrase.advance options.limits [.initial (2 * g.startRule)] (before.map (·.1) ++ [kind]) = []) :
    g.suggest options input = .error (.noViableParse ⟨before.length, word, g.displayName kind⟩) := by
  obtain ⟨read, hread, hwords, -⟩ := h.tokenizeFrom hg hz 0
  obtain ⟨tokens, rest, htokens, rfl, hrest⟩ := List.map_eq_append_iff.1 hwords
  obtain ⟨x, tokens', rfl, hx, -⟩ := List.map_eq_cons_iff.1 hrest
  cases hx
  rw [List.map_map] at hne hnil
  refine Grammar.suggest_eq_noViableParse_iff.2 ⟨read, hread, ?_⟩
  rw [htokens, Grammar.simulate_eq_error_of_advance hg hne hnil, List.length_map]

end Requests

end Declarations

end Typeahead
