import Mathlib
import Typeahead.Grammar.Declarations
import Typeahead.Proofs.Completion.SortedSuggestions
import Typeahead.Proofs.Text.CaseInPlace

/-!
# What has been typed of a suggestion

A fragment keeps the suggestions that begin with it.  As declared, typing on only takes suggestions away; in another
letter case text and fragment are both put into lower case first, and a sigma that ends the fragment may become another
one when the fragment grows (`resolve_append`).  For the same reason a fragment that keeps a declared text need not keep
the text in upper or lower case; it does if its letters come back from upper case, as those of ASCII do
(`resolve_recased`).
-/

namespace Typeahead

open Text

namespace CasePreference

variable {case : CasePreference} {f t text : String}

/-- A text that completes a fragment completes its beginnings as well, unless letter case is left out of account and
the fragment has grown behind a sigma. -/
theorem completes_iff_of_append (h : case.completes text (f ++ t) = true) :
    case.completes text f = true ↔ case = asIs ∨ ¬ SigmaRunsOn f.toList t.toList := by
  rw [completes_iff] at h ⊢
  have hcaseless (h : (lowercase (f ++ t)).toList <+: (lowercase text).toList) :
      (lowercase f).toList <+: (lowercase text).toList ↔ ¬ SigmaRunsOn f.toList t.toList := by
    rw [lowercase, String.toList_ofList, String.toList_append] at h
    rw [lowercase, String.toList_ofList]
    exact lowercaseFrom_prefix_iff_of_append h
  cases case with
  | asIs =>
    have hprefix : (f ++ t).toList <+: text.toList := h
    rw [String.toList_append] at hprefix
    exact iff_of_true ((List.prefix_append ..).trans hprefix) (Or.inl rfl)
  | upper => exact (hcaseless h).trans (or_iff_right nofun).symm
  | lower => exact (hcaseless h).trans (or_iff_right nofun).symm

theorem completes_empty (case : CasePreference) (text : String) : case.completes text "" = true := by
  rw [completes_iff]
  cases case <;> exact List.nil_prefix

/-- A declared text that begins with the fragment completes it in upper case just if the letters of the fragment keep
their lower case. -/
theorem completes_uppercase_iff : upper.completes (uppercase (f ++ t)) f = true ↔ KeepsLowercase f.toList t.toList := by
  rw [completes_iff, Continues, lowercase, lowercase, uppercase, String.toList_ofList, String.toList_ofList,
    String.toList_ofList, String.toList_append]
  exact lowercaseFrom_prefix_uppercase_iff f.toList t.toList

/-- A declared text that begins with the fragment completes it in lower case just if it does not go on behind a
sigma. -/
theorem completes_lowercase_iff : lower.completes (lowercase (f ++ t)) f = true ↔ ¬ SigmaRunsOn f.toList t.toList := by
  rw [completes_iff, Continues, lowercase_lowercase, lowercase, lowercase, String.toList_ofList, String.toList_ofList,
    String.toList_append]
  exact lowercaseFrom_prefix_iff f.toList t.toList

end CasePreference

namespace Grammar

variable {g : Grammar} {case : CasePreference} {fragment : Option String} {kinds : List TokenKind} {s : Suggestion}

/-! ### Typing on -/

/-- Typing on only takes suggestions away, with their kinds as they are, unless letter case is left out of account and
a word goes on behind a sigma; and an empty fragment takes nothing away. -/
theorem resolve_append (g : Grammar) (case : CasePreference) (kinds : List TokenKind) (f t : String) :
    (∀ s ∈ g.resolve case (some (f ++ t)) kinds,
      s ∈ g.resolve case (some f) kinds ↔ case = .asIs ∨ ¬ SigmaRunsOn f.toList t.toList) ∧
    g.resolve case (some "") kinds = g.resolve case none kinds := by
  refine ⟨fun s hs => ?_, ?_⟩
  · obtain ⟨hall, hcompletes⟩ := mem_resolve_some_iff.1 hs
    rw [mem_resolve_some_iff, and_iff_right hall]
    exact CasePreference.completes_iff_of_append hcompletes
  · have hkept : ∀ kind, g.textsOf case (some "") kind = g.textsOf case none kind := by
      intro kind
      rw [textsOf_some, List.filter_eq_self]
      exact fun x _ => case.completes_empty x.text
    rw [resolve, resolve, funext hkept]

/-- A single word, with any number of spaces around it. -/
def wordOf (spelling : String) : Declarations :=
  { tokens := [⟨"WORD", .literal spelling, false⟩, ⟨"SPACE", .many1 (.literal " "), true⟩]
    rules := [("start", .atom "WORD")]
    start := some "start" }

/-- The grammar built for a word. -/
def wordGrammar (spelling : String) : Grammar := (wordOf spelling).build.toOption.getD ⟨.empty, .empty, #[], 0⟩

/-- A conjunction is suggested for both of its letters, so it has been for the first one. -/
theorem resolve_append_letter :
    ⟨"OR", 0⟩ ∈ (wordGrammar "Or").resolve .upper (some ("o" ++ "R")) [0] ∧
      ⟨"OR", 0⟩ ∈ (wordGrammar "Or").resolve .upper (some "o") [0] := by
  have hs : ⟨"OR", 0⟩ ∈ (wordGrammar "Or").resolve .upper (some ("o" ++ "R")) [0] := by
    rw [show (wordGrammar "Or").resolve .upper (some ("o" ++ "R")) [0] = [⟨"OR", 0⟩] by cbv]
    exact List.mem_singleton.2 rfl
  have hsigma : ¬ SigmaRunsOn "o".toList "R".toList := by
    refine not_sigmaRunsOn_of_comesBack fun c hc => ?_
    obtain rfl := List.mem_singleton.1 hc
    exact comesBack_of_ascii (by decide)
  exact ⟨hs, ((resolve_append (wordGrammar "Or") .upper [0] "o" "R").1 _ hs).2 (Or.inr hsigma)⟩

/-- With its last letter the word is suggested; without it, when the sigma ends the fragment, it is not. -/
theorem resolve_sigma_runs_on :
    (wordOf "ΑΣΑ").build = .ok (wordGrammar "ΑΣΑ") ∧
      (wordGrammar "ΑΣΑ").resolve .upper (some ("ΑΣ" ++ "Α")) [0] = [⟨"ΑΣΑ", 0⟩] ∧
      (wordGrammar "ΑΣΑ").resolve .upper (some "ΑΣ") [0] = [] := by
  exact ⟨by cbv, by cbv, by cbv⟩

/-! ### Choosing a letter case -/

theorem exists_eq_append_of_mem_resolve {f : String} (hs : s ∈ g.resolve .asIs (some f) kinds) :
    ∃ t, s.text = f ++ t := by
  have hprefix := (CasePreference.asIs.completes_iff s.text f).1 (mem_resolve_some_iff.1 hs).2
  obtain ⟨t, ht⟩ : f.toList <+: s.text.toList := hprefix
  exact ⟨.ofList t, String.toList_inj.1 (by rw [String.toList_append, String.toList_ofList, ht])⟩

/-- What is suggested as declared is suggested in another case as well, if it completes the fragment there. -/
theorem apply_mem_texts_resolve_iff (hs : s ∈ g.resolve .asIs fragment kinds) (case : CasePreference) :
    case.apply s.text ∈ (g.resolve case fragment kinds).map (·.text) ↔
      ∀ f t, fragment = some f → s.text = f ++ t → case.completes (case.apply (f ++ t)) f = true := by
  obtain ⟨hk, hmem⟩ := mem_textsOf_of_mem_resolve hs
  obtain ⟨hskip, -, ⟨spelling, hspelling, htext⟩, -⟩ := mem_textsOf_iff.1 hmem
  obtain rfl : spelling = s.text := htext
  rw [mem_texts_resolve_iff]
  constructor
  · rintro ⟨kind, -, hkind⟩ f t hf ht
    obtain ⟨-, -, -, hcompletes⟩ := mem_textsOf_iff.1 hkind
    exact ht ▸ hcompletes f hf
  · intro h
    refine ⟨s.kind, hk, mem_textsOf_iff.2 ⟨hskip, rfl, ⟨s.text, hspelling, rfl⟩, ?_⟩⟩
    rintro f rfl
    obtain ⟨t, ht⟩ := exists_eq_append_of_mem_resolve hs
    exact ht ▸ h f t rfl ht

/-- A text that begins with the fragment as declared is suggested in upper case if the letters of the fragment keep
their lower case there, and in lower case if the text does not go on behind a sigma; in both, whatever follows, if the
letters of the fragment come back from upper case. -/
theorem resolve_recased (hs : s ∈ g.resolve .asIs fragment kinds) :
    (uppercase s.text ∈ (g.resolve .upper fragment kinds).map (·.text) ↔
      ∀ f t, fragment = some f → s.text = f ++ t → KeepsLowercase f.toList t.toList) ∧
    (lowercase s.text ∈ (g.resolve .lower fragment kinds).map (·.text) ↔
      ∀ f t, fragment = some f → s.text = f ++ t → ¬ SigmaRunsOn f.toList t.toList) ∧
    ((∀ f, fragment = some f → ∀ c ∈ f.toList, ComesBack c) →
      uppercase s.text ∈ (g.resolve .upper fragment kinds).map (·.text) ∧
        lowercase s.text ∈ (g.resolve .lower fragment kinds).map (·.text)) := by
  have hupper := apply_mem_texts_resolve_iff hs .upper
  have hlower := apply_mem_texts_resolve_iff hs .lower
  simp only [CasePreference.apply, CasePreference.completes_uppercase_iff] at hupper
  simp only [CasePreference.apply, CasePreference.completes_lowercase_iff] at hlower
  refine ⟨hupper, hlower, fun hback => ⟨hupper.2 fun f t hf _ => ?_, hlower.2 fun f t hf _ => ?_⟩⟩
  · exact keepsLowercase_of_comesBack (hback f hf)
  · exact not_sigmaRunsOn_of_comesBack (hback f hf)

/-- The conjunction is suggested for its first letter in both cases. -/
theorem resolve_recased_letter :
    ⟨"or", 0⟩ ∈ (wordGrammar "or").resolve .asIs (some "o") [0] ∧
      uppercase "or" ∈ ((wordGrammar "or").resolve .upper (some "o") [0]).map (·.text) ∧
      lowercase "or" ∈ ((wordGrammar "or").resolve .lower (some "o") [0]).map (·.text) := by
  have hs : ⟨"or", 0⟩ ∈ (wordGrammar "or").resolve .asIs (some "o") [0] := by
    rw [show (wordGrammar "or").resolve .asIs (some "o") [0] = [⟨"or", 0⟩] by cbv]
    exact List.mem_singleton.2 rfl
  refine ⟨hs, (resolve_recased hs).2.2 ?_⟩
  rintro _ ⟨⟩ c hc
  obtain rfl := List.mem_singleton.1 hc
  exact comesBack_of_ascii (by decide)

/-- Microseconds are suggested for their first letter as declared, but not in upper case, though a keyword holds that
letter in either case; and a word that goes on behind a sigma is not suggested in lower case. -/
theorem resolve_recased_micro :
    (wordOf "µs").build = .ok (wordGrammar "µs") ∧ (wordOf "ΑΣΑ").build = .ok (wordGrammar "ΑΣΑ") ∧
      (wordGrammar "µs").resolve .asIs (some "µ") [0] = [⟨"µs", 0⟩] ∧
      (wordGrammar "µs").resolve .upper (some "µ") [0] = [] ∧
      uppercaseChar 'µ' = ['Μ'] ∧ (CharSet.anyCase 'µ').contains 'Μ' = true ∧
      (wordGrammar "ΑΣΑ").resolve .asIs (some "ΑΣ") [0] = [⟨"ΑΣΑ", 0⟩] ∧
      (wordGrammar "ΑΣΑ").resolve .lower (some "ΑΣ") [0] = [] := by
  exact ⟨by cbv, by cbv, by cbv, by cbv, by decide +kernel, by decide +kernel, by cbv, by cbv⟩

end Grammar

end Typeahead
