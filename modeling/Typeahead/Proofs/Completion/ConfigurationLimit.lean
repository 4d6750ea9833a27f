import Mathlib
import Typeahead.Proofs.Completion.GrowingInput
import Typeahead.Proofs.Completion.MaximalMunch
import Typeahead.Proofs.Completion.Suggestion
import Typeahead.Proofs.Completion.Viability
import Typeahead.Proofs.Network.Truncation

/-!
# Requests under different limits on configurations

A lower limit on configurations is harmless as long as it cuts no closure short while the text is read and its tokens
are simulated.  Then both are just as under any higher limit (`tokenizeFrom_eq_of_le`, `simulateFrom_eq_of_le`), and a
request loses some of its suggestions at most (`suggest_of_le`).  A closure that is cut short earlier is fatal: a text
that is accepted under the higher limit can fail under the lower one (`suggest_cut_short`).
-/

namespace Typeahead

namespace Network

variable {σ τ : Type} {net : Network σ τ} {limits : Limits} {seeds : List Configuration}

/-- The counter of a closure tells whether it is cut short. -/
theorem truncated_closure_eq_zero_iff :
    (net.closure limits seeds).stats.truncated = 0 ↔ (net.closure limits seeds).bound = none := by
  unfold closure
  simp

end Network

namespace Grammar

variable {g : Grammar} {reentry limit limit' : Nat}

/-! ### Reading -/

/-- A scan that is not cut short is the same under each higher limit. -/
private theorem scanFrom_eq_of_le (hle : limit ≤ limit') {frontier : List Configuration} {read : Nat}
    {best : Option Munch} {stats : Stats} {cs : List Char}
    (h : (g.scanFrom ⟨reentry, limit⟩ frontier read best stats cs).stats.truncated = 0) :
    stats.truncated = 0 ∧ g.scanFrom ⟨reentry, limit'⟩ frontier read best stats cs =
      g.scanFrom ⟨reentry, limit⟩ frontier read best stats cs := by
  induction cs generalizing frontier read best stats with
  | nil => exact ⟨h, rfl⟩
  | cons c cs ih =>
    by_cases hs : g.lexical.step frontier c = []
    · rw [scanFrom_cons_of_eq_nil hs] at h
      rw [scanFrom_cons_of_eq_nil hs, scanFrom_cons_of_eq_nil hs]
      exact ⟨h, rfl⟩
    · rw [scanFrom_cons_of_ne_nil hs] at h
      obtain ⟨hstats, hrest⟩ := ih h
      obtain ⟨hstats, hclosure⟩ := Nat.add_eq_zero_iff.1 hstats
      rw [scanFrom_cons_of_ne_nil hs, scanFrom_cons_of_ne_nil hs,
        Network.closure_eq_of_bound_eq_none hle (Network.truncated_closure_eq_zero_iff.1 hclosure)]
      exact ⟨hstats, hrest⟩

private theorem scan_eq_of_le (hle : limit ≤ limit') {cs : List Char}
    (h : (g.scan ⟨reentry, limit⟩ cs).stats.truncated = 0) :
    g.scan ⟨reentry, limit'⟩ cs = g.scan ⟨reentry, limit⟩ cs := by
  obtain ⟨hfirst, hscan⟩ := scanFrom_eq_of_le hle h
  unfold scan
  rw [Network.closure_eq_of_bound_eq_none hle (Network.truncated_closure_eq_zero_iff.1 hfirst), hscan]

/-- A text whose scans are not cut short is read in the same way under each higher limit. -/
theorem tokenizeFrom_eq_of_le (hle : limit ≤ limit') {cs : List Char}
    (h : ∀ scanned ∈ g.scansFrom ⟨reentry, limit⟩ cs, scanned.stats.truncated = 0) (position : Nat) :
    g.tokenizeFrom ⟨reentry, limit'⟩ position cs = g.tokenizeFrom ⟨reentry, limit⟩ position cs := by
  induction hlen : cs.length using Nat.strong_induction_on generalizing position cs with
  | h len ih =>
    cases cs with
    | nil => rw [tokenizeFrom, tokenizeFrom]
    | cons c cs =>
      rw [scansFrom] at h
      rw [tokenizeFrom, tokenizeFrom]
      cases hb : (g.scan ⟨reentry, limit⟩ (c :: cs)).best with
      | none =>
        simp only [hb, List.forall_mem_singleton] at h
        simp only [scan_eq_of_le hle h, hb]
      | some munch =>
        simp only [hb] at h
        split at h
        · rename_i hl
          rw [List.forall_mem_singleton] at h
          simp only [scan_eq_of_le hle h, hb, if_pos hl]
        · -- the match is confirmed, and reading goes on behind it
          rw [List.forall_mem_cons] at h
          obtain ⟨hscan, h⟩ := h
          have hlt : (cs.drop munch.extra).length < len := by
            rw [List.length_drop, ← hlen, List.length_cons]
            omega
          have hrest := ih _ hlt h (position + byteLength (c :: cs.take munch.extra)) rfl
          simp only [scan_eq_of_le hle hscan, hb, hrest]

/-! ### Simulating -/

/-- Tokens whose closures are not cut short are simulated in the same way under each higher limit. -/
theorem simulateFrom_eq_of_le (hle : limit ≤ limit') {index : Nat} {configs : List Configuration} {w : List Token}
    (h : ∀ reached ∈ g.closuresFrom ⟨reentry, limit⟩ configs w, reached.bound = none) :
    g.simulateFrom ⟨reentry, limit'⟩ index configs w = g.simulateFrom ⟨reentry, limit⟩ index configs w := by
  induction w generalizing index configs with
  | nil => rfl
  | cons x w ih =>
    rw [closuresFrom] at h
    rw [simulateFrom, simulateFrom]
    cases hs : g.phrase.step (g.phrase.closure ⟨reentry, limit⟩ configs).frontier x.kind with
    | nil =>
      simp only [hs, List.forall_mem_singleton] at h
      simp only [Network.closure_eq_of_bound_eq_none hle h, hs]
    | cons c next =>
      simp only [hs, List.forall_mem_cons] at h
      simp only [Network.closure_eq_of_bound_eq_none hle h.1, hs, ih h.2]

/-- What is expected under the lower limit is expected under the higher one. -/
theorem kinds_subset_of_le (hle : limit ≤ limit') (configs : List Configuration) :
    (g.expectation ⟨reentry, limit⟩ configs).kinds ⊆ (g.expectation ⟨reentry, limit'⟩ configs).kinds := by
  intro kind h
  obtain ⟨c, hc, hx⟩ := mem_kinds_iff.1 h
  exact mem_kinds_iff.2 ⟨c, (Network.frontier_prefix_of_le hle).subset hc, hx⟩

/-! ### Requests -/

/-- If the lower limit cuts no closure short while the text is read and its tokens are simulated, a request that has a
report under the higher limit has one under the lower limit, too.  Both have read the same; only the collection of what
comes next may have been cut short, so suggestions may be missing, and the end may not have been found. -/
theorem suggest_of_le (hle : limit ≤ limit') {case : CasePreference} {s : String} {report' : Report}
    (h : g.suggest ⟨case, ⟨reentry, limit'⟩⟩ s = .ok report')
    (hscans : ∀ scanned ∈ g.scansFrom ⟨reentry, limit⟩ s.toList, scanned.stats.truncated = 0)
    (hclosures : ∀ t, g.tokenize ⟨reentry, limit⟩ s = .ok t →
      ∀ reached ∈ g.closures ⟨reentry, limit⟩ t.tokens, reached.bound = none) :
    ∃ report, g.suggest ⟨case, ⟨reentry, limit⟩⟩ s = .ok report ∧
      report.unfinished = report'.unfinished ∧ report.confirmed = report'.confirmed ∧
      (report.acceptsEnd = true → report'.acceptsEnd = true) ∧ report.texts ⊆ report'.texts := by
  obtain ⟨read, parsed, hread, hparsed, rfl⟩ := suggest_eq_ok_iff.1 h
  have hread' : g.tokenize ⟨reentry, limit⟩ s = .ok read := (tokenizeFrom_eq_of_le hle hscans 0).symm.trans hread
  have hparsed' : g.simulate ⟨reentry, limit⟩ read.tokens = .ok parsed :=
    (simulateFrom_eq_of_le hle (hclosures read hread')).symm.trans hparsed
  refine ⟨_, suggest_eq_ok_iff.2 ⟨read, parsed, hread', hparsed', rfl⟩, rfl, rfl, Network.acceptsEnd_of_le hle, ?_⟩
  intro text htext
  obtain ⟨kind, hk, hs⟩ := mem_texts_resolve_iff.1 htext
  exact mem_texts_resolve_iff.2 ⟨kind, kinds_subset_of_le hle _ hk, hs⟩

/-- Four configurations are enough to read a letter, as it is read under the usual limit. -/
theorem suggest_letter_of_le :
    ∃ report, letterGrammar.suggest ⟨.asIs, ⟨16, 4⟩⟩ "a " = .ok report ∧ report.unfinished = none ∧
      report.confirmed = 1 := by
  have h : letterGrammar.suggest {} "a " = .ok ⟨[], none, 1, true, ⟨15, 0, 0⟩⟩ := by cbv
  have ht : letterGrammar.tokenize ⟨16, 4⟩ "a " = .ok ⟨[⟨0, "a", 0, 1⟩], none, ⟨12, 0, 0⟩⟩ := by cbv
  have hscans : (letterGrammar.scansFrom ⟨16, 4⟩ "a ".toList).all (·.stats.truncated == 0) = true := by cbv
  have hclosures : (letterGrammar.closures ⟨16, 4⟩ [⟨0, "a", 0, 1⟩]).all (·.bound.isNone) = true := by cbv
  obtain ⟨report, hreport, hunfinished, hconfirmed, -⟩ := suggest_of_le (by decide : 4 ≤ 100000) h
    (fun scanned hs => of_decide_eq_true (List.all_eq_true.1 hscans scanned hs)) fun t ht' reached hr => by
      cases ht.symm.trans ht'
      exact Option.isNone_iff_eq_none.1 (List.all_eq_true.1 hclosures reached hr)
  exact ⟨report, hreport, hunfinished, hconfirmed⟩

/-- The letter is accepted under the usual limit.  If a single configuration may be explored, only the start of one
token is, and the letter is a lexical error. -/
theorem suggest_cut_short :
    letter.build = .ok letterGrammar ∧ (∃ report, letterGrammar.suggest {} "a" = .ok report) ∧
      letterGrammar.suggest ⟨.asIs, ⟨16, 1⟩⟩ "a" = .error (.lexical ⟨0, "a"⟩) := by
  have hb : letter.build = .ok letterGrammar := by cbv
  have hok : (letterGrammar.suggest {} "a").toOption.isSome = true := by cbv
  have herror : letterGrammar.suggest ⟨.asIs, ⟨16, 1⟩⟩ "a" = .error (.lexical ⟨0, "a"⟩) := by cbv
  refine ⟨hb, ?_, herror⟩
  cases h : letterGrammar.suggest {} "a" with
  | error e => simp [h, Except.toOption] at hok
  | ok report => exact ⟨report, rfl⟩

end Grammar

end Typeahead
