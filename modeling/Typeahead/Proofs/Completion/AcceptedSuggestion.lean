import Typeahead.Proofs.Completion.Blanks
import Typeahead.Proofs.Completion.Cursor
import Typeahead.Proofs.Completion.Suggestion

/-!
# Accepting a suggestion

Accepting a suggestion replaces the unfinished text by the suggested one and adds a space.  In a grammar whose tokens
are kept apart by blanks this is never rejected: all that was confirmed is confirmed again, the suggested text becomes
one more token, and nothing is left unfinished (`suggest_accepting`).
-/

namespace Typeahead.Grammar

open Declarations

variable {d : Declarations} {g : Grammar} {blank kind : TokenKind} {atom : LexAtom} {limits : Limits} {s : String}

/-- Completing the unfinished text to a spelling and adding a space confirms the spelling as the last token.  The text
only grows, so the matches that are confirmed already stay confirmed. -/
theorem Tokenizes.append_spelling (h : d.BlankSeparated g blank atom) (hz : ∀ cs, (g.scan limits cs).stats.Complete)
    (hs : s ∈ g.spellings kind) (hk : kind ≠ blank) {position start : Nat} {cs rest : List Char}
    {r : Except LexicalError Tokenization} (ht : g.Tokenizes limits position cs r) {t : Tokenization} (hr : r = .ok t)
    (hrest : ((t.unfinished.map (·.text)).getD "").toList ++ rest = s.toList)
    (hstart : (t.unfinished.map (·.start)).getD (position + byteLength cs) = start) :
    ∃ stats, g.tokenizeFrom limits position (cs ++ (rest ++ [' '])) =
      .ok ⟨t.tokens ++ [⟨kind, s, start, start + byteLength s.toList⟩], none, stats⟩ := by
  induction ht generalizing t with
  | finished =>
    cases hr
    obtain rfl : rest = s.toList := hrest
    subst hstart
    exact h.tokenizeFrom_spelling hz hs hk _
  | @ended position cs munch hb hskip hn =>
    cases hr
    obtain rfl : rest = s.toList := hrest
    subst hstart
    obtain ⟨hlen, hc⟩ := h.confirms_blanks hz hb hskip hn hs hk
    obtain ⟨stats, hread⟩ := h.tokenizeFrom_spelling hz hs hk (position + byteLength cs)
    rw [hc.tokenizeFrom_eq, hlen, List.take_left, List.drop_left, hread]
    refine ⟨(g.scan limits (cs ++ (s.toList ++ [' ']))).stats + stats, ?_⟩
    simp only [Except.map, withMatch, hskip, if_true]
    rfl
  | @unfinished position cs hcs hl =>
    cases hr
    subst hstart
    rw [Option.map_some, Option.getD_some, String.toList_ofList] at hrest
    rw [← List.append_assoc, hrest]
    exact h.tokenizeFrom_spelling hz hs hk position
  | stuck => cases hr
  | @confirmed position cs munch _ hm _ ih =>
    obtain ⟨t, ht, rfl⟩ := except_map_eq_ok.1 hr
    have hbytes : position + byteLength (cs.take (munch.extra + 1)) + byteLength (cs.drop (munch.extra + 1)) =
        position + byteLength cs := by
      rw [Nat.add_assoc, ← byteLength_append, List.take_append_drop]
    obtain ⟨stats, hread⟩ := ih ht hrest (by rw [hbytes]; exact hstart)
    rw [hm.tokenizeFrom_append, hread]
    refine ⟨(g.scan limits cs).stats + stats, ?_⟩
    simp only [Except.map, withMatch]
    split
    · rfl
    · rfl

/-- The unfinished text is the end of the text. -/
theorem Tokenizes.exists_before {position : Nat} {cs : List Char} {r : Except LexicalError Tokenization}
    (ht : g.Tokenizes limits position cs r) {t : Tokenization} (hr : r = .ok t) :
    ∃ before, cs = before ++ ((t.unfinished.map (·.text)).getD "").toList ∧
      (t.unfinished.map (·.start)).getD (position + byteLength cs) = position + byteLength before := by
  cases hu : t.unfinished with
  | none => exact ⟨cs, by simp, rfl⟩
  | some u => exact ht.unfinished_spans hr hu

/-- If the unfinished text is replaced by a spelling that begins with it, and a space is added, the spelling is
confirmed behind all that was confirmed before. -/
theorem exists_tokenize_accepting (h : d.BlankSeparated g blank atom)
    (hz : ∀ cs, (g.scan limits cs).stats.Complete) {input : String} {read : Tokenization}
    (hread : g.tokenize limits input = .ok read) (hs : s ∈ g.spellings kind) (hk : kind ≠ blank)
    (hcompletes : ∀ f, read.unfinished.map (·.text) = some f → CasePreference.asIs.completes s f = true) :
    ∃ before fragment stats, input = before ++ fragment ∧
      before.utf8ByteSize = (read.unfinished.map (·.start)).getD input.utf8ByteSize ∧
      g.tokenize limits (before ++ s ++ " ") = .ok ⟨read.tokens ++
        [⟨kind, s, before.utf8ByteSize, before.utf8ByteSize + s.utf8ByteSize⟩], none, stats⟩ := by
  obtain ⟨rest, hrest⟩ : ∃ rest, ((read.unfinished.map (·.text)).getD "").toList ++ rest = s.toList := by
    cases hu : read.unfinished with
    | none => exact ⟨s.toList, rfl⟩
    | some u =>
      rw [hu] at hcompletes
      exact List.isPrefixOf_iff_prefix.1 (hcompletes u.text rfl)
  have ht := g.tokenizes_tokenizeFrom limits 0 input.toList
  obtain ⟨before, hcs, hstart⟩ := ht.exists_before hread
  obtain ⟨stats, hread'⟩ := ht.append_spelling h hz hs hk hread hrest hstart
  have hbytes : (String.ofList before).utf8ByteSize = byteLength before := by
    rw [← byteLength_toList, String.toList_ofList]
  have htext : (String.ofList before ++ s ++ " ").toList = input.toList ++ (rest ++ [' ']) := by
    simp [hcs, ← hrest]
  rw [Nat.zero_add, Nat.zero_add] at hstart
  refine ⟨.ofList before, (read.unfinished.map (·.text)).getD "", stats, ?_, ?_, ?_⟩
  · rw [← String.toList_inj, String.toList_append, String.toList_ofList, hcs]
  · rw [hbytes, ← hstart, byteLength_toList]
  · unfold tokenize
    rw [htext, hread', Nat.zero_add, hbytes, byteLength_toList]

/-- A text that is read with one more token, of a kind that is suggested, has a report. -/
theorem exists_report_of_tokenize_append {options : Options} {s s' : String} {report : Report} {read : Tokenization}
    {x : Suggestion} {token : Token} {stats : Stats} (h : g.suggest options s = .ok report)
    (hr : g.tokenize options.limits s = .ok read) (hx : x ∈ report.suggestions) (hk : token.kind = x.kind)
    (hr' : g.tokenize options.limits s' = .ok ⟨read.tokens ++ [token], none, stats⟩) :
    ∃ report', g.suggest options s' = .ok report' ∧ report'.unfinished = none ∧
      report'.confirmed = read.tokens.length + 1 := by
  obtain ⟨read', parsed, hread, hparsed, rfl⟩ := suggest_eq_ok_iff.1 h
  cases hread.symm.trans hr
  have hexpected : token.kind ∈ (g.expectation options.limits parsed.configurations).kinds :=
    hk ▸ (mem_textsOf_of_mem_resolve hx).1
  have happend := simulateFrom_append_of_ok hparsed [token]
  rw [simulateFrom_cons_of_mem hexpected] at happend
  obtain ⟨parsed', hparsed', -⟩ := except_map_eq_ok.1 happend
  exact ⟨_, suggest_eq_ok_iff.2 ⟨_, parsed', hr', hparsed', rfl⟩, rfl, List.length_append⟩

/-- In a grammar whose tokens are kept apart by blanks, a suggestion that is accepted becomes the last token. -/
theorem suggest_accepting (h : d.BlankSeparated g blank atom) (hz : ∀ cs, (g.scan limits cs).stats.Complete)
    {s : String} {report : Report} (hs : g.suggest ⟨.asIs, limits⟩ s = .ok report) {x : Suggestion}
    (hx : x ∈ report.suggestions) :
    ∃ before fragment read read' report',
      s = before ++ fragment ∧
      before.utf8ByteSize = (report.unfinished.map (·.start)).getD s.utf8ByteSize ∧
      g.tokenize limits s = .ok read ∧
      g.tokenize limits (before ++ x.text ++ " ") = .ok read' ∧
      read'.tokens = read.tokens ++
        [⟨x.kind, x.text, before.utf8ByteSize, before.utf8ByteSize + x.text.utf8ByteSize⟩] ∧
      g.suggest ⟨.asIs, limits⟩ (before ++ x.text ++ " ") = .ok report' ∧
      report'.unfinished = none ∧ report'.confirmed = read.tokens.length + 1 := by
  obtain ⟨read, parsed, hread, -, rfl⟩ := suggest_eq_ok_iff.1 hs
  obtain ⟨hskip, -, ⟨spelling, hspelling, htext⟩, hcompletes⟩ := mem_textsOf_iff.1 (mem_textsOf_of_mem_resolve hx).2
  obtain rfl : spelling = x.text := htext
  have hk : x.kind ≠ blank := fun hk => Bool.false_ne_true (hskip.symm.trans (h.skips_iff.2 hk))
  obtain ⟨before, fragment, stats, hinput, hstart, hread'⟩ :=
    exists_tokenize_accepting h hz hread hspelling hk hcompletes
  obtain ⟨report', hreport', hnone, hconfirmed⟩ := exists_report_of_tokenize_append hs hread hx rfl hread'
  exact ⟨before, fragment, read, _, report', hinput, hstart, hread, hread', rfl, hreport', hnone, hconfirmed⟩

end Typeahead.Grammar
