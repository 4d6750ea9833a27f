import Typeahead.Grammar.Sample.HarmonySql
import Typeahead.Proofs.Completion.AcceptedSuggestion
import Typeahead.Proofs.Completion.Composition
import Typeahead.Proofs.Grammar.Buildable

/-!
# Suggestions of the sample grammar

The sample grammar can be built (`exists_grammar`), and blanks keep its tokens apart, so none of its suggestions is ever
rejected (`harmonySql_accepts_suggestions`).  What has to be known about its tokens is computed: from their expressions
as they are written, read symbol by symbol, and from the walks through the lexical network that find the spellings.
-/

namespace Typeahead.Sample

open Declarations

/-! ### The tokens as they are written -/

/-- The characters of the class of blanks. -/
def blanks : List Char := [' ', '\t', '\r', '\n']

/-- The class of blanks as it is written. -/
def blankAtom : LexAtom := .inClass "\\s\\t\\r\\n"

theorem blankAtom_accepts_iff {x : Char} : blankAtom.Accepts x ↔ x ∈ blanks := by
  have hranges : Text.classRanges "\\s\\t\\r\\n" = .ok (blanks.map fun c => ⟨c, c⟩) := by cbv
  constructor
  · rintro ⟨rs, hrs, r, hr, hlo, hhi⟩
    cases hranges.symm.trans hrs
    obtain ⟨c, hc, rfl⟩ := List.mem_map.1 hr
    obtain rfl : x = c := Char.le_antisymm hhi hlo
    exact hc
  · intro hx
    exact ⟨_, hranges, ⟨x, x⟩, List.mem_map_of_mem hx, Char.le_refl x, Char.le_refl x⟩

/-- No token refers to another rule or matches the empty text; all but the first are kept and begin with no blank. -/
private theorem harmonySql_tokens : harmonySql.tokens.zipIdx.all (fun (t, kind) =>
    t.body.refFree && !t.body.nullable && (kind == 0 || !t.skip &&
      blanks.all fun x => (harmonySql.lexicalSystem.residuals [x] [t.body]).isEmpty)) = true := by
  decide +kernel

/-- What is checked for all tokens holds for each of them. -/
private theorem tokens_spec {kind : TokenKind} {t : TokenDecl} (hk : harmonySql.tokens[kind]? = some t) :
    t.body.refFree = true ∧ t.body.nullable = false ∧ (kind ≠ 0 → t.skip = false ∧
      ∀ x ∈ blanks, harmonySql.lexicalSystem.residuals [x] [t.body] = []) := by
  have h := List.all_eq_true.1 harmonySql_tokens (t, kind) (List.mem_zipIdx_iff_getElem?.2 hk)
  simp only [Bool.and_eq_true, Bool.not_eq_true', Bool.or_eq_true, beq_iff_eq, List.all_eq_true,
    List.isEmpty_iff] at h
  obtain ⟨⟨hfree, hnullable⟩, hrest⟩ := h
  exact ⟨hfree, hnullable, fun hne => hrest.resolve_left hne⟩

private theorem allRefFree_tokens {t : TokenDecl} (ht : t ∈ harmonySql.tokens) :
    t.body.refFree = true ∧ Pattern.allRefFree [t.body] = true := by
  obtain ⟨k, hk⟩ := List.mem_iff_getElem?.1 ht
  obtain ⟨hfree, -⟩ := tokens_spec hk
  rw [Pattern.allRefFree_singleton]
  exact ⟨hfree, hfree⟩

private theorem not_derives_nil {t : TokenDecl} (ht : t ∈ harmonySql.tokens) :
    ¬ harmonySql.lexicalSystem.Derives [t.body] [] := by
  obtain ⟨k, hk⟩ := List.mem_iff_getElem?.1 ht
  obtain ⟨-, hnullable, -⟩ := tokens_spec hk
  rw [RuleSystem.derives_nil_iff_allNullable (allRefFree_tokens ht).2, Pattern.allNullable, hnullable]
  exact Bool.false_ne_true

/-- The spellings of the tokens; blanks, numbers, strings and identifiers have none. -/
def spellings : List (List String) :=
  [[], ["FROM"], ["SELECT"], ["WHERE"], ["AND"], ["OR"], ["LIKE"], ["EQ", "="], ["NEQ", "!="], ["LTE", "<="],
    ["GTE", ">="], ["LT", "<"], ["GT", ">"], [","], ["*"], tables, columns, [], [], []]

/-- A space closes each spelling. -/
private theorem closes_spellings : spellings.zipIdx.all (fun (texts, kind) =>
    texts.all fun s => harmonySql.closes kind s.toList ' ') = true := by
  decide +kernel

/-! ### The grammar -/

/-- The lexical network has no calls, few states and the listed spellings. -/
private theorem exists_lexical : ∃ net, harmonySql.buildLexical = .ok net ∧ net.CallFree ∧
    net.states.size < 100000 ∧ (List.range 20).map (fun kind => (net.spellings? kind).getD []) = spellings :=
  except_exists_of_any (by decide +kernel)

/-- A statement begins with a keyword and a table. -/
private theorem exists_phrase : ∃ net, harmonySql.buildPhrase = .ok net ∧
    net.advance {} [.initial 0] [1, 15] ≠ [] :=
  except_exists_of_any (by cbv)

/-- The sample grammar can be built, from these networks. -/
theorem exists_grammar : ∃ g, harmonySql.build = .ok g ∧ (∀ cs, (g.scan {} cs).stats.Complete) ∧
    (∀ kind s, s ∈ g.spellings kind ↔ ∃ texts, spellings[kind]? = some texts ∧ s ∈ texts) ∧
    g.startRule = 0 ∧ g.phrase.advance {} [.initial 0] [1, 15] ≠ [] := by
  obtain ⟨lexical, hl, hf, hsize, hspellings⟩ := exists_lexical
  obtain ⟨phrase, hp, hadvance⟩ := exists_phrase
  have hstart : (harmonySql.rules.map (·.1)).idxOf? "statement" = some 0 := by cbv
  obtain ⟨g, hg, rfl, rfl, hrule⟩ := exists_build_eq_ok rfl hl hp hstart fun t ht => not_derives_nil ht
  have hbuilt := built_of_build hg
  refine ⟨g, hg, Grammar.complete_scan hbuilt hf (by decide) hsize, fun kind s => ?_, hrule, hadvance⟩
  have hlength : harmonySql.tokens.length = 20 := rfl
  rw [hbuilt.mem_spellings_iff, hlength, ← hspellings, List.getElem?_map]
  by_cases hk : kind < 20
  · simp [hk]
  · simp [hk]

/-- Blanks keep the tokens of the sample grammar apart. -/
private theorem blankSeparated {g : Grammar} (hg : harmonySql.build = .ok g)
    (hspellings : ∀ kind s, s ∈ g.spellings kind ↔ ∃ texts, spellings[kind]? = some texts ∧ s ∈ texts) :
    harmonySql.BlankSeparated g 0 blankAtom := by
  refine ⟨hg, ⟨_, rfl⟩, blankAtom_accepts_iff.2 (List.mem_cons_self ..), ?_, ?_, ?_⟩
  · rintro kind ⟨t, hk, hskip⟩
    by_contra hne
    rw [((tokens_spec hk).2.2 hne).1] at hskip
    cases hskip
  · intro kind t x hk hx hv
    by_contra hne
    rw [RuleSystem.viable_iff_residuals (allRefFree_tokens (List.mem_of_getElem? hk)).2] at hv
    exact hv (((tokens_spec hk).2.2 hne).2 x (blankAtom_accepts_iff.1 hx))
  · intro kind s hs
    obtain ⟨texts, hk, hs⟩ := (hspellings kind s).1 hs
    have hall := List.all_eq_true.1 closes_spellings (texts, kind) (List.mem_zipIdx_iff_getElem?.2 hk)
    exact (closes_iff fun t ht => (allRefFree_tokens ht).1).1 (List.all_eq_true.1 hall s hs)

/-! ### Suggestions -/

/-- A space confirms the keyword, and the letter behind it is unfinished. -/
private theorem tokenize_fragment {g : Grammar} (h : harmonySql.BlankSeparated g 0 blankAtom)
    (hz : ∀ cs, (g.scan {} cs).stats.Complete) (hfrom : "FROM" ∈ g.spellings 1) :
    ∃ stats, g.tokenize {} "FROM P" = .ok ⟨[⟨1, "FROM", 0, 4⟩], some ⟨"P", 5⟩, stats⟩ := by
  have hfree : ∀ t ∈ harmonySql.tokens, t.body.refFree = true := fun t ht => (allRefFree_tokens ht).1
  have hblank : harmonySql.Closes 0 [' '] 'P' := (closes_iff hfree).1 (by decide +kernel)
  have hletter : harmonySql.Closes 19 ['P'] ' ' := (closes_iff hfree).1 (by decide +kernel)
  have hskips : g.skips 0 = true := h.skips_iff.2 rfl
  have hkept : ∀ {kind}, kind ≠ 0 → g.skips kind = false :=
    fun hne => Bool.eq_false_iff.2 fun hskip => hne (h.skips_iff.1 hskip)
  have hrest : g.tokenizeFrom {} 5 ['P'] = .ok ⟨[], some ⟨"P", 5⟩, (g.scan {} ['P']).stats⟩ := by
    have hbest : (g.scan {} ['P']).best = some ⟨19, 0⟩ := Grammar.best_of_munches h.built (hz _) hletter.munches_self
    rw [Grammar.tokenizeFrom]
    simp [hbest, hkept (show 19 ≠ 0 by decide)]
  -- the text is read from its end
  obtain ⟨stats, hspace⟩ := hblank.tokenizeFrom_eq h.built hz [] 4
  obtain ⟨stats', hword⟩ := (h.closes hfrom).tokenizeFrom_eq h.built hz ['P'] 0
  have htext : "FROM P".toList = "FROM".toList ++ ' ' :: ['P'] := rfl
  have hfour : 0 + byteLength "FROM".toList = 4 := by decide
  have hfive : 4 + byteLength [' '] = 5 := by decide
  rw [List.singleton_append, hfive, hrest, hskips] at hspace
  rw [Grammar.tokenize, htext, hword, hfour, hspace, hkept (show 1 ≠ 0 by decide), String.ofList_toList]
  exact ⟨_, rfl⟩

/-- The keyword is read and a table is suggested for the letter. -/
private theorem exists_report_of_fragment {g : Grammar} (hg : harmonySql.build = .ok g) : ∃ stats report,
    g.tokenize {} "FROM P" = .ok ⟨[⟨1, "FROM", 0, 4⟩], some ⟨"P", 5⟩, stats⟩ ∧
      g.suggest {} "FROM P" = .ok report ∧ report.unfinished = some ⟨"P", 5⟩ ∧ "PROFILE_TABLE" ∈ report.texts := by
  obtain ⟨g', hg', hz, hspellings, hrule, hadvance⟩ := exists_grammar
  cases hg.symm.trans hg'
  have hsep := blankSeparated hg hspellings
  have hfrom : "FROM" ∈ g.spellings 1 := (hspellings 1 _).2 ⟨_, rfl, List.mem_singleton.2 rfl⟩
  have htable : "PROFILE_TABLE" ∈ g.spellings 15 := (hspellings 15 _).2 ⟨_, rfl, List.mem_cons_self⟩
  have hkept : g.skips 15 = false := Bool.eq_false_iff.2 fun hskip => absurd (hsep.skips_iff.1 hskip) (by decide)
  obtain ⟨stats, hread⟩ := tokenize_fragment hsep hz hfrom
  have hboth : g.phrase.advance {} [.initial (2 * g.startRule)] ([1] ++ [15]) ≠ [] := by rwa [hrule]
  have hsimulate : ∃ s, g.simulate {} [⟨1, "FROM", 0, 4⟩] = .ok s ∧
      s.configurations = g.phrase.advance {} [.initial (2 * g.startRule)] [1] :=
    Grammar.exists_simulate_of_advance hsep.built (Network.advance_ne_nil_of_append hboth)
  obtain ⟨s, hs, hconfigs⟩ := hsimulate
  have hkind : 15 ∈ (g.expectation {} s.configurations).kinds := by
    rw [Grammar.mem_kinds_iff_step_ne_nil, hconfigs, ← Network.advance_concat]
    exact hboth
  have hcompletes : CasePreference.asIs.completes "PROFILE_TABLE" "P" = true := by decide
  refine ⟨stats, _, hread, Grammar.suggest_eq_ok_iff.2 ⟨_, s, hread, hs, rfl⟩, rfl, ?_⟩
  exact Grammar.mem_texts_resolve_iff.2
    ⟨15, hkind, Grammar.mem_textsOf_iff.2 ⟨hkept, rfl, ⟨"PROFILE_TABLE", htable, rfl⟩, by simpa using hcompletes⟩⟩

/-- Accepting a suggestion of the sample grammar is never rejected.  If the unfinished text is replaced by a suggested
one, followed by a space, then nothing is left unfinished, and what was confirmed is confirmed again, with one token
more: the suggested text, of the suggested kind. -/
theorem harmonySql_accepts_suggestions :
    ∃ g, harmonySql.build = .ok g ∧ ∀ s report, g.suggest {} s = .ok report → ∀ x ∈ report.suggestions,
      ∃ before fragment read read' report',
        s = before ++ fragment ∧
        before.utf8ByteSize = (report.unfinished.map (·.start)).getD s.utf8ByteSize ∧
        g.tokenize {} s = .ok read ∧
        g.tokenize {} (before ++ x.text ++ " ") = .ok read' ∧
        read'.tokens = read.tokens ++
          [⟨x.kind, x.text, before.utf8ByteSize, before.utf8ByteSize + x.text.utf8ByteSize⟩] ∧
        g.suggest {} (before ++ x.text ++ " ") = .ok report' ∧
        report'.unfinished = none ∧ report'.confirmed = read.tokens.length + 1 := by
  obtain ⟨g, hg, hz, hspellings, -⟩ := exists_grammar
  exact ⟨g, hg, fun s report hs x hx => Grammar.suggest_accepting (blankSeparated hg hspellings) hz hs hx⟩

/-- Behind a keyword, accepting the table that is suggested for a letter confirms it. -/
theorem harmonySql_accepts_table :
    ∃ g read report, harmonySql.build = .ok g ∧ g.tokenize {} "FROM PROFILE_TABLE " = .ok read ∧
      read.tokens.map (·.text) = ["FROM", "PROFILE_TABLE"] ∧ g.suggest {} "FROM PROFILE_TABLE " = .ok report ∧
      report.unfinished = none ∧ report.confirmed = 2 := by
  obtain ⟨g, hg, haccepts⟩ := harmonySql_accepts_suggestions
  obtain ⟨stats, report, hfragment, hreport, hunfinished, htext⟩ := exists_report_of_fragment hg
  obtain ⟨x, hx, htable⟩ := List.mem_map.1 htext
  obtain ⟨before, fragment, read, read', report', hinput, hsize, hread, hread', htokens, hreport', hnone, hconfirmed⟩ :=
    haccepts "FROM P" report hreport x hx
  cases hfragment.symm.trans hread
  rw [hunfinished, ← byteLength_toList, Option.map_some, Option.getD_some] at hsize
  obtain rfl : before = "FROM " := by
    have htake := takeBytes_append before.toList fragment.toList
    rw [hsize, ← String.toList_append, ← hinput] at htake
    exact String.toList_injective htake.symm
  rw [htable] at hread' hreport'
  refine ⟨g, read', report', hg, hread', ?_, hreport', hnone, hconfirmed⟩
  rw [htokens, htable]
  rfl

end Typeahead.Sample
