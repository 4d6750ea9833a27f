import Mathlib.Data.List.Forall2
import Typeahead.Proofs.Completion.GrowingInput
import Typeahead.Proofs.Completion.LiteralTokens
import Typeahead.Proofs.Completion.Suggestion
import Typeahead.Proofs.Text.LetterCase

/-!
# Suggestions in another letter case

A suggestion is a spelling in the preferred letter case.  The spelling is a text of its token, but the suggestion need
not be: a letter that the token accepts in one case only is mapped as well (`literal_recased`).  Mapping keeps a text
of the token where each character has one character as its image and is consumed by a set that holds it in either case,
or is not changed (`Declarations.recasable`); keywords are of this kind (`derives_recasable_caseless`).
-/

namespace Typeahead

namespace CasePreference

variable {case : CasePreference} {x y : Char}

/-- The character is mapped to a single one.  A capital sigma has two images in lower case, depending on its place. -/
def Turns : CasePreference → Char → Char → Prop
  | upper, x, y => Text.uppercaseChar x = [y]
  | lower, x, y => Text.lowercaseChar x = [y] ∨ x = 'Σ' ∧ y = 'ς'
  | asIs, x, y => y = x

instance (case : CasePreference) (x y : Char) : Decidable (case.Turns x y) :=
  match case with
  | upper => inferInstanceAs (Decidable (Text.uppercaseChar x = [y]))
  | lower => inferInstanceAs (Decidable (Text.lowercaseChar x = [y] ∨ x = 'Σ' ∧ y = 'ς'))
  | asIs => inferInstanceAs (Decidable (y = x))

/-- A character that is mapped to itself is mapped to nothing else. -/
theorem Turns.eq_of_refl (h : case.Turns x x) (hy : case.Turns x y) : y = x := by
  cases case with
  | upper => exact List.singleton_inj.1 (hy.symm.trans h)
  | lower =>
    rcases h with h | ⟨rfl, hx⟩
    · rcases hy with hy | ⟨rfl, -⟩
      · exact List.singleton_inj.1 (hy.symm.trans h)
      · cases Text.lowercaseChar_sigma.symm.trans h
    · cases hx
  | asIs => exact hy

/-- A set that holds a letter in either case holds its image. -/
theorem Turns.contains {declared : Char} (h : case.Turns x y)
    (hx : (Text.CharSet.anyCase declared).contains x = true) : (Text.CharSet.anyCase declared).contains y = true := by
  cases case with
  | upper => exact Text.contains_uppercaseChar hx h
  | lower =>
    rcases h with h | ⟨rfl, rfl⟩
    · exact Text.contains_lowercaseChar hx h
    · exact Text.contains_finalSigma hx
  | asIs =>
    obtain rfl : y = x := h
    exact hx

theorem turns_self_of_not_isAlphabetic (case : CasePreference) (h : Text.isAlphabetic x = false) : case.Turns x x := by
  cases case with
  | upper => exact Text.uppercaseChar_of_not_isAlphabetic h
  | lower => exact Or.inl (Text.lowercaseChar_of_not_isAlphabetic h)
  | asIs => rfl

private theorem forall₂_uppercase {cs : List Char} (h : ∀ x ∈ cs, ∃ y, upper.Turns x y) :
    List.Forall₂ upper.Turns cs (cs.flatMap Text.uppercaseChar) := by
  induction cs with
  | nil => exact .nil
  | cons x cs ih =>
    obtain ⟨⟨y, hy⟩, hcs⟩ := List.forall_mem_cons.1 h
    rw [List.flatMap_cons, show Text.uppercaseChar x = [y] from hy]
    exact .cons hy (ih hcs)

private theorem forall₂_lowercaseFrom {cs : List Char} (h : ∀ x ∈ cs, ∃ y, lower.Turns x y) (before : List Char) :
    List.Forall₂ lower.Turns cs (Text.lowercaseFrom before cs) := by
  induction cs generalizing before with
  | nil => exact .nil
  | cons x cs ih =>
    obtain ⟨⟨y, hy⟩, hcs⟩ := List.forall_mem_cons.1 h
    rw [Text.lowercaseFrom]
    by_cases hx : x = 'Σ'
    · subst hx
      refine .cons ?_ (ih hcs _)
      by_cases hends : Text.endsWord before cs = true
      · exact Or.inr ⟨rfl, if_pos hends⟩
      · exact Or.inl (by rw [if_neg hends, Text.lowercaseChar_sigma])
    · have hy' : Text.lowercaseChar x = [y] := hy.resolve_right fun h => hx h.1
      rw [if_neg hx, hy']
      exact .cons hy (ih hcs _)

/-- Where each character is mapped to a single one, mapping a text maps its characters one by one. -/
theorem forall₂_apply {s : String} (h : ∀ x ∈ s.toList, ∃ y, case.Turns x y) :
    List.Forall₂ case.Turns s.toList (case.apply s).toList := by
  cases case with
  | upper =>
    rw [apply, Text.uppercase, String.toList_ofList]
    exact forall₂_uppercase h
  | lower =>
    rw [apply, Text.lowercase, String.toList_ofList]
    exact forall₂_lowercaseFrom h []
  | asIs => exact List.forall₂_same.2 fun _ _ => rfl

end CasePreference

namespace RuleSystem

/-- A derived word stays derived when its symbols are exchanged for ones that the same atoms accept. -/
theorem Derives.exchange {α ρ σ : Type} {G H : RuleSystem α ρ σ} {R : σ → σ → Prop}
    (hbody : ∀ r p, G.body? r = some p → H.body? r = some p)
    (haccepts : ∀ a x y, G.accepts a x → R x y → H.accepts a y) {F : Form α ρ} {u v : List σ} (h : G.Derives F u)
    (huv : List.Forall₂ R u v) : H.Derives F v := by
  unfold Derives at h
  generalize hrest : ([] : Form α ρ) = rest at h
  induction h generalizing v with
  | refl F =>
    subst hrest
    cases huv
    exact .refl []
  | expand he _ ih =>
    rcases he.ref_or H with ⟨r, q, rfl, rfl, hr⟩ | he
    · exact .expand (.ref (hbody _ _ hr)) (ih huv hrest)
    · exact .expand he (ih huv hrest)
  | emit hx _ ih =>
    cases huv with
    | cons hxy huv => exact .emit (haccepts _ _ _ hx hxy) (ih huv hrest)

/-- What a form of atoms derives depends on these atoms only. -/
theorem Derives.of_atoms {α ρ σ : Type} {G H : RuleSystem α ρ σ} {atoms : List α} {w : List σ}
    (h : G.Derives (atoms.map .atom) w) (haccepts : ∀ a ∈ atoms, ∀ x, G.accepts a x → H.accepts a x) :
    H.Derives (atoms.map .atom) w := by
  induction atoms generalizing w with
  | nil => exact derives_nil_iff.2 (derives_nil_iff.1 h)
  | cons a atoms ih =>
    obtain ⟨ha, hatoms⟩ := List.forall_mem_cons.1 haccepts
    cases h with
    | expand he => cases he
    | emit hx h => exact .emit (ha _ hx) (ih h hatoms)

end RuleSystem

namespace Declarations

variable {d : Declarations} {case : CasePreference} {u v : List Char}

/-- The lexical rules, restricted to the characters that a mapping does not take from their atoms: those in sets that
hold a letter in either case, and those that are not changed. -/
def recasable (d : Declarations) (case : CasePreference) : RuleSystem LexAtom String Char where
  accepts atom x := atom.Accepts x ∧ ((∃ declared, atom = .set (.anyCase declared)) ∨ case.Turns x x)
  body? := d.lexicalSystem.body?

/-- What the restricted rules derive is derived in the other case as well. -/
theorem derives_of_recasable {F : Form LexAtom String} (h : (d.recasable case).Derives F u)
    (huv : List.Forall₂ case.Turns u v) : d.lexicalSystem.Derives F v := by
  have hbody : ∀ r p, (d.recasable case).body? r = some p → d.lexicalSystem.body? r = some p := fun _ _ hr => hr
  have haccepts : ∀ atom x y, (d.recasable case).accepts atom x → case.Turns x y → d.lexicalSystem.accepts atom y := by
    rintro atom x y ⟨hx, ⟨declared, rfl⟩ | hfixed⟩ hy
    · exact hy.contains hx
    · rw [hfixed.eq_of_refl hy]
      exact hx
  exact h.exchange hbody haccepts huv

/-- Nothing is taken from keywords: their letters stand for either case, and only letters have a case. -/
theorem derives_recasable_caseless {spelling : String} (h : d.lexicalSystem.Derives [.caseless spelling] u) :
    (d.recasable case).Derives [.caseless spelling] u := by
  have hatoms : Pattern.caseless spelling = .seq ((spelling.toList.map fun c =>
      if Text.isAlphabetic c = true then LexAtom.set (.anyCase c) else .char c).map .atom) := by
    rw [List.map_map]
    rfl
  rw [hatoms, RuleSystem.derives_seq_iff] at h ⊢
  refine h.of_atoms fun atom hatom x hx => ⟨hx, ?_⟩
  obtain ⟨c, -, rfl⟩ := List.mem_map.1 hatom
  split at hx
  · exact Or.inl ⟨c, if_pos ‹_›⟩
  · rename_i hc
    obtain rfl : x = c := hx
    exact Or.inr (case.turns_self_of_not_isAlphabetic (Bool.eq_false_iff.2 hc))

end Declarations

namespace Grammar

open Declarations

variable {d : Declarations} {g : Grammar} {case : CasePreference} {fragment : Option String} {kinds : List TokenKind}
  {s : Suggestion}

/-- Each suggestion is a declared text of its token in the preferred case.  In the declared case it is a text of the
token itself, and in another case wherever the token holds the text in that case, as keywords do. -/
theorem suggestions_spell_tokens (hd : d.build = .ok g) (hs : s ∈ g.resolve case fragment kinds) :
    (∃ w ∈ g.spellings s.kind, case.apply w = s.text ∧ d.Spells s.kind w.toList) ∧
    (case = .asIs → d.Spells s.kind s.text.toList) ∧
    ∀ w ∈ g.spellings s.kind, case.apply w = s.text → (∀ x ∈ w.toList, ∃ y, case.Turns x y) →
      (∃ t, d.tokens[s.kind]? = some t ∧
        ((∃ spelling, t.body = .caseless spelling) ∨ (d.recasable case).Derives [t.body] w.toList)) →
      d.Spells s.kind s.text.toList := by
  obtain ⟨-, hmem⟩ := mem_textsOf_of_mem_resolve hs
  obtain ⟨-, -, ⟨w, hw, happly⟩, -⟩ := mem_textsOf_iff.1 hmem
  refine ⟨⟨w, hw, happly, spells_of_mem_spellings hd hw⟩, ?_, ?_⟩
  · rintro rfl
    rw [← happly]
    exact spells_of_mem_spellings hd hw
  · rintro w hw happly hturns ⟨t, ht, hbody⟩
    have hrecasable : (d.recasable case).Derives [t.body] w.toList := by
      rcases hbody with ⟨spelling, hkeyword⟩ | hrecasable
      · obtain ⟨t', ht', hderives⟩ := spells_of_mem_spellings hd hw
        obtain rfl := Option.some.inj (ht.symm.trans ht')
        rw [hkeyword] at hderives ⊢
        exact derives_recasable_caseless hderives
      · exact hrecasable
    rw [← happly]
    exact ⟨t, ht, derives_of_recasable hrecasable (CasePreference.forall₂_apply hturns)⟩

set_option maxRecDepth 1000 in
/-- The conjunction is suggested in upper case, and can be read so. -/
theorem suggestions_spell_conjunction :
    conjunctionGrammar.resolve .upper none [0] = [⟨"OR", 0⟩] ∧ conjunction.Spells 0 "OR".toList := by
  have hd : conjunction.build = .ok conjunctionGrammar := by cbv
  have hresolve : conjunctionGrammar.resolve .upper none [0] = [⟨"OR", 0⟩] := by cbv
  have hspelling : conjunctionGrammar.spellings 0 = ["Or"] := by cbv
  have hs : ⟨"OR", 0⟩ ∈ conjunctionGrammar.resolve .upper none [0] := hresolve ▸ List.mem_singleton.2 rfl
  obtain ⟨-, -, hrecased⟩ := suggestions_spell_tokens hd hs
  refine ⟨hresolve, hrecased "Or" (hspelling ▸ List.mem_singleton.2 rfl) (by cbv) ?_ ?_⟩
  · have hO : CasePreference.upper.Turns 'O' 'O' := by cbv
    have hr : CasePreference.upper.Turns 'r' 'R' := by cbv
    exact List.forall_mem_cons.2 ⟨⟨_, hO⟩, List.forall_mem_singleton.2 ⟨_, hr⟩⟩
  · exact ⟨_, rfl, Or.inl ⟨"Or", rfl⟩⟩

/-- A letter that is declared in one case is suggested in upper case, but cannot be read so. -/
theorem literal_recased :
    letter.build = .ok letterGrammar ∧ ⟨"A", 0⟩ ∈ letterGrammar.resolve .upper none [0] ∧
      ¬ letter.Spells 0 "A".toList := by
  refine ⟨by cbv, ?_, ?_⟩
  · rw [show letterGrammar.resolve .upper none [0] = [⟨"A", 0⟩] by cbv]
    exact List.mem_singleton.2 rfl
  · rintro ⟨t, ht, h⟩
    cases ht
    cases h with
    | expand he => cases he
    | emit ha => cases ha

end Grammar

end Typeahead
