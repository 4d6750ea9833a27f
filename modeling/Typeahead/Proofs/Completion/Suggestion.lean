import Mathlib.Data.List.Basic
import Typeahead.Completion.Suggestion

/-!
# Which texts are suggested

A suggestion is a spelling of an expected kind that begins with what has been typed (`mem_textsOf_iff`).  Sorting the
suggestions and dropping repeated texts loses no text and adds none, so the suggested texts are those of the expected
kinds (`mem_texts_resolve_iff`).
-/

namespace Typeahead

/-- Suggestions are dropped only. -/
theorem dropRepeated_sublist (last : Option String) (l : List Suggestion) : (dropRepeated last l).Sublist l := by
  induction l generalizing last with
  | nil => exact .slnil
  | cons s l ih =>
    unfold dropRepeated
    split
    · exact (ih last).cons s
    · exact (ih _).cons_cons s

/-- A text is dropped only if it stands before. -/
theorem mem_texts_dropRepeated {last : Option String} {l : List Suggestion} {s : Suggestion} (h : s ∈ l) :
    last = some s.text ∨ s.text ∈ (dropRepeated last l).map (·.text) := by
  induction l generalizing last with
  | nil => cases h
  | cons x l ih =>
    unfold dropRepeated
    split
    · rename_i hlast
      rcases List.mem_cons.1 h with rfl | h
      · exact Or.inl hlast
      · exact ih h
    · refine Or.inr ?_
      rw [List.map_cons, List.mem_cons]
      rcases List.mem_cons.1 h with rfl | h
      · exact Or.inl rfl
      · have htail : some x.text = some s.text ∨ s.text ∈ (dropRepeated (some x.text) l).map (·.text) := ih h
        exact htail.imp (fun he => (Option.some.inj he).symm) id

namespace Grammar

variable {g : Grammar} {case : CasePreference} {fragment : Option String} {kind : TokenKind}
  {kinds : List TokenKind} {s : Suggestion}

theorem mem_textsOf_iff :
    s ∈ g.textsOf case fragment kind ↔
      g.skips kind = false ∧ s.kind = kind ∧ (∃ spelling ∈ g.spellings kind, case.apply spelling = s.text) ∧
        ∀ f, fragment = some f → case.completes s.text f = true := by
  have hmap : ∀ kept : List String, s ∈ kept.map (⟨·, kind⟩ : String → Suggestion) ↔ s.kind = kind ∧ s.text ∈ kept := by
    intro kept
    obtain ⟨text, k⟩ := s
    rw [List.mem_map]
    constructor
    · rintro ⟨t, ht, he⟩
      cases he
      exact ⟨rfl, ht⟩
    · rintro ⟨rfl, ht⟩
      exact ⟨text, ht, rfl⟩
  unfold textsOf
  cases hs : g.skips kind with
  | true => simp
  | false =>
    rw [if_neg Bool.false_ne_true, hmap]
    cases fragment with
    | none => simp
    | some f => simp

/-- Each suggestion is one of an expected kind. -/
theorem mem_textsOf_of_mem_resolve (h : s ∈ g.resolve case fragment kinds) :
    s.kind ∈ kinds ∧ s ∈ g.textsOf case fragment s.kind := by
  have hmem := (dropRepeated_sublist _ _).subset h
  rw [List.mem_mergeSort, List.mem_flatMap] at hmem
  obtain ⟨kind, hk, hs⟩ := hmem
  obtain rfl := (mem_textsOf_iff.1 hs).2.1
  exact ⟨hk, hs⟩

/-- A text of several kinds is not lost with the kinds it is not suggested for. -/
theorem mem_texts_resolve_iff {text : String} :
    text ∈ (g.resolve case fragment kinds).map (·.text) ↔
      ∃ kind ∈ kinds, ⟨text, kind⟩ ∈ g.textsOf case fragment kind := by
  constructor
  · intro h
    obtain ⟨s, hs, rfl⟩ := List.mem_map.1 h
    exact ⟨s.kind, mem_textsOf_of_mem_resolve hs⟩
  · rintro ⟨kind, hk, hs⟩
    have hmem : ⟨text, kind⟩ ∈ (kinds.flatMap (g.textsOf case fragment)).mergeSort
        fun a b => decide (a.text ≤ b.text) := List.mem_mergeSort.2 (List.mem_flatMap.2 ⟨kind, hk, hs⟩)
    have hkept : none = some text ∨ text ∈ (g.resolve case fragment kinds).map (·.text) :=
      mem_texts_dropRepeated hmem
    exact hkept.resolve_left nofun

/-- A request has a report if its text is read and its tokens are simulated; the report tells what was found. -/
theorem suggest_eq_ok_iff {options : Options} {input : String} {report : Report} :
    g.suggest options input = .ok report ↔ ∃ read parsed, g.tokenize options.limits input = .ok read ∧
      g.simulate options.limits read.tokens = .ok parsed ∧
      report =
        { suggestions := g.resolve options.case (read.unfinished.map (·.text))
            (g.expectation options.limits parsed.configurations).kinds
          unfinished := read.unfinished
          confirmed := read.tokens.length
          acceptsEnd := (g.expectation options.limits parsed.configurations).acceptsEnd
          stats := read.stats + parsed.stats + (g.expectation options.limits parsed.configurations).stats } := by
  unfold suggest
  cases ht : g.tokenize options.limits input with
  | error e => simp
  | ok read =>
    cases hp : g.simulate options.limits read.tokens with
    | error e => simp [hp]
    | ok parsed => simp [hp, eq_comm]

end Grammar

end Typeahead
