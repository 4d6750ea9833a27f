import Mathlib.Data.List.Basic
import Typeahead.Proofs.Completion.Suggestion
import Typeahead.Proofs.Text.ByteOrder

/-!
# The order and the kinds of the suggestions

Sorting keeps suggestions of one text in the order in which they were found (`find?_mergeSort`), and of each text the
first suggestion is kept (`find?_of_mem_dropRepeated`).  So the suggestions ascend strictly by the bytes of their texts,
their texts are those that some of the kinds offers, and each belongs to the first kind that offers its text
(`resolve_spec`).  A fragment takes suggestions away and does not change the others (`mem_resolve_some_iff`).
-/

namespace Typeahead

open Text (utf8Bytes utf8Bytes_lt_iff)

/-- A text continues what has been typed, up to letter case unless the declared case is kept. -/
def CasePreference.Continues : CasePreference → String → String → Prop
  | asIs, fragment, text => fragment.toList <+: text.toList
  | upper, fragment, text => (Text.lowercase fragment).toList <+: (Text.lowercase text).toList
  | lower, fragment, text => (Text.lowercase fragment).toList <+: (Text.lowercase text).toList

theorem CasePreference.completes_iff (case : CasePreference) (text fragment : String) :
    case.completes text fragment = true ↔ case.Continues fragment text := by
  cases case <;> exact List.isPrefixOf_iff_prefix

/-- A kind offers a text: it is the kind of a token that is not skipped, the text is one of its spellings in the
preferred case, and it continues the fragment, if there is one. -/
def Grammar.Offers (g : Grammar) (case : CasePreference) (fragment : Option String) (kind : TokenKind)
    (text : String) : Prop :=
  ∃ t, g.tokens[kind]? = some t ∧ t.skip = false ∧ (∃ spelling ∈ t.spellings, case.apply spelling = text) ∧
    ∀ f, fragment = some f → case.Continues f text

section Sorting

variable {l : List Suggestion} {s : Suggestion} {last : Option String}

/-- Ascending by text; texts may repeat. -/
private def Ascending (l : List Suggestion) : Prop := l.Pairwise (·.text ≤ ·.text)

private theorem text_le_trans (a b c : Suggestion) (hab : decide (a.text ≤ b.text) = true)
    (hbc : decide (b.text ≤ c.text) = true) : decide (a.text ≤ c.text) = true :=
  decide_eq_true ((of_decide_eq_true hab).trans (of_decide_eq_true hbc))

private theorem text_le_total (a b : Suggestion) :
    (decide (a.text ≤ b.text) || decide (b.text ≤ a.text)) = true := by
  rw [Bool.or_eq_true, decide_eq_true_eq, decide_eq_true_eq]
  exact le_total a.text b.text

private theorem ascending_mergeSort (l : List Suggestion) :
    Ascending (l.mergeSort fun a b => decide (a.text ≤ b.text)) :=
  (List.pairwise_mergeSort text_le_trans text_le_total l).imp of_decide_eq_true

/-- Sorting keeps the suggestions of one text in their order. -/
theorem filter_mergeSort (l : List Suggestion) (text : String) :
    (l.mergeSort fun a b => decide (a.text ≤ b.text)).filter (·.text = text) = l.filter (·.text = text) := by
  have htied : (l.filter (·.text = text)).Pairwise fun a b => decide (a.text ≤ b.text) = true := by
    refine List.pairwise_iff_forall_sublist.2 ?_
    intro a b hab
    have ha : a.text = text := of_decide_eq_true (List.mem_filter.1 (hab.subset List.mem_cons_self)).2
    have hb : b.text = text :=
      of_decide_eq_true (List.mem_filter.1 (hab.subset (List.mem_cons_of_mem a List.mem_cons_self))).2
    exact decide_eq_true (ha.trans hb.symm).le
  have hkept := (List.sublist_mergeSort text_le_trans text_le_total htied List.filter_sublist).filter (·.text = text)
  rw [List.filter_filter] at hkept
  simp only [Bool.and_self] at hkept
  have hlength := ((List.mergeSort_perm l fun a b => decide (a.text ≤ b.text)).filter (·.text = text)).length_eq
  exact (hkept.eq_of_length hlength.symm).symm

/-- The first suggestion of a text is the first one after sorting. -/
theorem find?_mergeSort (l : List Suggestion) (text : String) :
    (l.mergeSort fun a b => decide (a.text ≤ b.text)).find? (·.text = text) = l.find? (·.text = text) := by
  rw [← List.head?_filter, ← List.head?_filter, filter_mergeSort]

/-- What is kept of ascending suggestions lies behind the text before them. -/
private theorem lt_of_mem_dropRepeated (h : Ascending l) (hlast : ∀ t, last = some t → ∀ x ∈ l, t ≤ x.text)
    (hs : s ∈ dropRepeated last l) : ∀ t, last = some t → t < s.text := by
  induction l generalizing last with
  | nil => cases hs
  | cons x l ih =>
    obtain ⟨hx, hl⟩ := List.pairwise_cons.1 h
    intro t ht
    unfold dropRepeated at hs
    split at hs
    · exact ih hl (fun t ht y hy => hlast t ht y (List.mem_cons_of_mem x hy)) hs t ht
    · rename_i hne
      have htx : t < x.text := by
        refine lt_of_le_of_ne (hlast t ht x List.mem_cons_self) ?_
        rintro rfl
        exact hne ht
      rcases List.mem_cons.1 hs with rfl | hs
      · exact htx
      · exact htx.trans (ih hl (by rintro _ ⟨⟩ y hy; exact hx y hy) hs x.text rfl)

/-- The texts that are kept ascend strictly. -/
private theorem pairwise_dropRepeated (h : Ascending l) : (dropRepeated last l).Pairwise (·.text < ·.text) := by
  induction l generalizing last with
  | nil => exact .nil
  | cons x l ih =>
    obtain ⟨hx, hl⟩ := List.pairwise_cons.1 h
    unfold dropRepeated
    split
    · exact ih hl
    · refine List.pairwise_cons.2 ⟨fun s hs => ?_, ih hl⟩
      exact lt_of_mem_dropRepeated hl (by rintro _ ⟨⟩ y hy; exact hx y hy) hs x.text rfl

/-- Of each text the first suggestion is kept. -/
private theorem find?_of_mem_dropRepeated (h : Ascending l) (hlast : ∀ t, last = some t → ∀ x ∈ l, t ≤ x.text)
    (hs : s ∈ dropRepeated last l) : l.find? (·.text = s.text) = some s := by
  induction l generalizing last with
  | nil => cases hs
  | cons x l ih =>
    obtain ⟨hx, hl⟩ := List.pairwise_cons.1 h
    have hbehind := lt_of_mem_dropRepeated h hlast hs
    unfold dropRepeated at hs
    split at hs
    · rename_i hrep
      -- The text of `x` is the one before, and that of `s` lies behind it.
      rw [List.find?_cons_of_neg (by simpa using (hbehind _ hrep).ne)]
      exact ih hl (fun t ht y hy => hlast t ht y (List.mem_cons_of_mem x hy)) hs
    · rcases List.mem_cons.1 hs with rfl | hs
      · exact List.find?_cons_of_pos (by simp)
      · have hfirst : ∀ t, some x.text = some t → ∀ y ∈ l, t ≤ y.text := by
          rintro _ ⟨⟩ y hy
          exact hx y hy
        have hlt := lt_of_mem_dropRepeated hl hfirst hs x.text rfl
        rw [List.find?_cons_of_neg (by simpa using hlt.ne)]
        exact ih hl hfirst hs

end Sorting

namespace Grammar

variable {g : Grammar} {case : CasePreference} {fragment : Option String} {kind : TokenKind} {text : String}

theorem mem_textsOf_iff_offers : ⟨text, kind⟩ ∈ g.textsOf case fragment kind ↔ g.Offers case fragment kind text := by
  rw [mem_textsOf_iff, Offers, skips, spellings, token?]
  simp only [case.completes_iff]
  cases g.tokens[kind]? with
  | none => simp
  | some t => simp

/-- A kind that offers a text is found with it. -/
private theorem find?_textsOf {s : Suggestion} (h : (g.textsOf case fragment kind).find? (·.text = text) = some s) :
    s = ⟨text, kind⟩ ∧ g.Offers case fragment kind text := by
  have hmem := List.mem_of_find?_eq_some h
  have hkind := (mem_textsOf_iff.1 hmem).2.1
  have htext : s.text = text := by simpa using List.find?_some h
  obtain ⟨t, k⟩ := s
  subst hkind htext
  exact ⟨rfl, mem_textsOf_iff_offers.1 hmem⟩

/-- The suggestions ascend strictly by the bytes of their texts, so no text occurs twice; a text occurs if and only if
one of the kinds offers it; and each suggestion belongs to the first of the kinds that offers its text.  The kinds may
come in any order, repeat and lie outside the table of tokens. -/
theorem resolve_spec (g : Grammar) (case : CasePreference) (fragment : Option String) (kinds : List TokenKind) :
    (g.resolve case fragment kinds).Pairwise (fun a b => utf8Bytes a.text < utf8Bytes b.text) ∧
      (∀ text, text ∈ (g.resolve case fragment kinds).map (·.text) ↔
        ∃ kind ∈ kinds, g.Offers case fragment kind text) ∧
      ∀ s ∈ g.resolve case fragment kinds, ∃ before after, kinds = before ++ s.kind :: after ∧
        g.Offers case fragment s.kind s.text ∧ ∀ kind ∈ before, ¬ g.Offers case fragment kind s.text := by
  refine ⟨?_, ?_, ?_⟩
  · exact (pairwise_dropRepeated (ascending_mergeSort _)).imp utf8Bytes_lt_iff.2
  · intro text
    rw [mem_texts_resolve_iff]
    simp only [mem_textsOf_iff_offers]
  · intro s hs
    have hfind := find?_of_mem_dropRepeated (ascending_mergeSort _) (by rintro _ ⟨⟩) hs
    rw [find?_mergeSort, List.find?_flatMap, List.findSome?_eq_some_iff] at hfind
    obtain ⟨before, kind, after, hkinds, hfound, hnone⟩ := hfind
    obtain ⟨hs, hoffers⟩ := find?_textsOf hfound
    obtain rfl : s.kind = kind := congrArg Suggestion.kind hs
    refine ⟨before, after, hkinds, hoffers, ?_⟩
    intro kind hkind hoffers
    have habsent := List.find?_eq_none.1 (hnone kind hkind) _ (mem_textsOf_iff_offers.2 hoffers)
    exact habsent (decide_eq_true rfl)

/-- A suggestion is the first one of its text, among those of all kinds. -/
theorem mem_resolve_iff {kinds : List TokenKind} {s : Suggestion} : s ∈ g.resolve case fragment kinds ↔
    (kinds.flatMap (g.textsOf case fragment)).find? (·.text = s.text) = some s := by
  have hfirst : ∀ x ∈ g.resolve case fragment kinds,
      (kinds.flatMap (g.textsOf case fragment)).find? (·.text = x.text) = some x := by
    intro x hx
    have hfind := find?_of_mem_dropRepeated (ascending_mergeSort _) (by rintro _ ⟨⟩) hx
    rwa [find?_mergeSort] at hfind
  refine ⟨hfirst s, fun hfind => ?_⟩
  obtain ⟨kind, hk, hs⟩ := List.mem_flatMap.1 (List.mem_of_find?_eq_some hfind)
  obtain rfl := (mem_textsOf_iff.1 hs).2.1
  -- the text is suggested, and what is suggested with it is found with it as well
  obtain ⟨x, hx, htext⟩ := List.mem_map.1 (mem_texts_resolve_iff.2 ⟨s.kind, hk, hs⟩)
  have hx' := hfirst x hx
  rw [htext, hfind] at hx'
  rwa [Option.some.inj hx']

theorem textsOf_some (g : Grammar) (case : CasePreference) (f : String) (kind : TokenKind) :
    g.textsOf case (some f) kind = (g.textsOf case none kind).filter fun s => case.completes s.text f := by
  unfold textsOf
  split
  · rfl
  · rw [List.filter_map]
    rfl

/-- A fragment keeps the suggestions whose texts complete it, each with its kind. -/
theorem mem_resolve_some_iff {f : String} {kinds : List TokenKind} {s : Suggestion} :
    s ∈ g.resolve case (some f) kinds ↔ s ∈ g.resolve case none kinds ∧ case.completes s.text f = true := by
  have hfilter : kinds.flatMap (g.textsOf case (some f)) =
      (kinds.flatMap (g.textsOf case none)).filter fun x => case.completes x.text f := by
    rw [List.filter_flatMap]
    exact congrArg kinds.flatMap (funext (g.textsOf_some case f))
  rw [mem_resolve_iff, mem_resolve_iff, hfilter, List.find?_filter]
  simp only [decide_eq_true_eq]
  by_cases hc : case.completes s.text f = true
  · have hsame : ∀ x : Suggestion, (case.completes x.text f = true ∧ x.text = s.text) ↔ x.text = s.text :=
      fun x => and_iff_right_of_imp fun hx => hx ▸ hc
    simp only [hsame, hc, and_true]
  · refine iff_of_false (fun hs => hc ?_) fun h => hc h.2
    have hfound := List.find?_some hs
    exact (of_decide_eq_true hfound).1

end Grammar

end Typeahead
