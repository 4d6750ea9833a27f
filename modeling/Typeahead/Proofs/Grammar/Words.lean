import Mathlib.Computability.Language
import Typeahead.Proofs.Grammar.Resolution

/-!
# Words of patterns

Once the rules that a pattern refers to have languages, the pattern has a language as well (`Pattern.words`).  It is
kept when names are resolved (`words_resolve`) and when alternatives are merged (`words_mergeSymbols`), and leftmost
expansions stay within it (`RuleSystem.Yields.append_mem_words`).
-/

namespace Typeahead

/-- The label stands for the symbol. -/
abbrev Label.Accepts {σ τ : Type} [DecidableEq σ] [SymbolSet τ σ] (label : Label σ τ) (x : σ) : Prop :=
  label.accepts x = true

namespace Pattern

open scoped Computability

variable {α β ρ κ σ ε : Type}

mutual

/-- The words that a pattern stands for, where atoms accept symbols and references stand for words of `E`. -/
def words (accepts : α → σ → Prop) (E : ρ → Language σ) : Pattern α ρ → Language σ
  | .empty => 1
  | .atom a => {w | ∃ x, accepts a x ∧ w = [x]}
  | .ref r => E r
  | .seq ps => wordsOfSequence accepts E ps
  | .alt ps => wordsOfAlternatives accepts E ps
  | .optional p => 1 + words accepts E p
  | .many p => (words accepts E p)∗
  | .many1 p => words accepts E p * (words accepts E p)∗

/-- The words of patterns one behind the other. -/
def wordsOfSequence (accepts : α → σ → Prop) (E : ρ → Language σ) : List (Pattern α ρ) → Language σ
  | [] => 1
  | p :: ps => words accepts E p * wordsOfSequence accepts E ps

/-- The words of any of the patterns. -/
def wordsOfAlternatives (accepts : α → σ → Prop) (E : ρ → Language σ) : List (Pattern α ρ) → Language σ
  | [] => 0
  | p :: ps => words accepts E p + wordsOfAlternatives accepts E ps

end

variable {accepts : α → σ → Prop} {E : ρ → Language σ}

theorem mem_words_atom {a : α} {w : List σ} :
    w ∈ words accepts E (.atom a) ↔ ∃ x, accepts a x ∧ w = [x] := by
  rw [words]
  rfl

theorem mem_wordsOfAlternatives {ps : List (Pattern α ρ)} {w : List σ} :
    w ∈ wordsOfAlternatives accepts E ps ↔ ∃ p ∈ ps, w ∈ words accepts E p := by
  induction ps with
  | nil => simp [wordsOfAlternatives, Language.notMem_zero]
  | cons p ps ih => rw [wordsOfAlternatives, Language.mem_add, ih, List.exists_mem_cons_iff]

/-! ### Resolving names -/

section Resolve

variable {atom : α → Except ε β} {ref : ρ → Except ε κ} {accepts' : β → σ → Prop} {E' : κ → Language σ}

mutual

/-- Resolving keeps the words of a pattern if it keeps the symbols of atoms and the words of references. -/
theorem words_resolve (ha : ∀ {a b}, atom a = .ok b → ∀ x, accepts' b x ↔ accepts a x)
    (hr : ∀ {r k}, ref r = .ok k → E' k = E r) (p : Pattern α ρ) {q : Pattern β κ} (h : resolve atom ref p = .ok q) :
    words accepts' E' q = words accepts E p := by
  match p with
  | .empty =>
    cases h
    rw [words, words]
  | .atom a =>
    obtain ⟨b, hb, rfl⟩ := except_map_eq_ok.1 h
    ext w
    simp only [mem_words_atom, ha hb]
  | .ref r =>
    obtain ⟨k, hk, rfl⟩ := except_map_eq_ok.1 h
    rw [words, words, hr hk]
  | .seq ps =>
    obtain ⟨qs, hqs, rfl⟩ := except_map_eq_ok.1 h
    rw [words, words, (wordsOf_resolveAll ha hr ps hqs).1]
  | .alt ps =>
    obtain ⟨qs, hqs, rfl⟩ := except_map_eq_ok.1 h
    rw [words, words, (wordsOf_resolveAll ha hr ps hqs).2]
  | .optional p =>
    obtain ⟨q, hq, rfl⟩ := except_map_eq_ok.1 h
    rw [words, words, words_resolve ha hr p hq]
  | .many p =>
    obtain ⟨q, hq, rfl⟩ := except_map_eq_ok.1 h
    rw [words, words, words_resolve ha hr p hq]
  | .many1 p =>
    obtain ⟨q, hq, rfl⟩ := except_map_eq_ok.1 h
    rw [words, words, words_resolve ha hr p hq]

theorem wordsOf_resolveAll (ha : ∀ {a b}, atom a = .ok b → ∀ x, accepts' b x ↔ accepts a x)
    (hr : ∀ {r k}, ref r = .ok k → E' k = E r) (ps : List (Pattern α ρ)) {qs : List (Pattern β κ)}
    (h : resolveAll atom ref ps = .ok qs) :
    wordsOfSequence accepts' E' qs = wordsOfSequence accepts E ps ∧
      wordsOfAlternatives accepts' E' qs = wordsOfAlternatives accepts E ps := by
  match ps with
  | [] =>
    cases h
    exact ⟨rfl, rfl⟩
  | p :: ps =>
    simp only [resolveAll, except_bind_eq_ok] at h
    obtain ⟨q, hq, qs, hqs, h⟩ := h
    cases h
    obtain ⟨hseq, halt⟩ := wordsOf_resolveAll ha hr ps hqs
    have hp := words_resolve ha hr p hq
    constructor
    · rw [wordsOfSequence, wordsOfSequence, hp, hseq]
    · rw [wordsOfAlternatives, wordsOfAlternatives, hp, halt]

end

end Resolve

/-! ### Merging symbols -/

section Merge

variable {E : ρ → Language TokenKind}

/-- A set of symbols stands for the same words as its symbols side by side. -/
private theorem words_oneOf_eraseDups (ss : List TokenKind) :
    words Label.Accepts E (.atom (.oneOf ss.eraseDups) : Pattern (Label TokenKind (List TokenKind)) ρ) =
      words Label.Accepts E (.alt (ss.map fun s => .atom (.symbol s)) :
        Pattern (Label TokenKind (List TokenKind)) ρ) := by
  ext w
  rw [mem_words_atom, words, mem_wordsOfAlternatives]
  constructor
  · rintro ⟨x, hx, rfl⟩
    have hs : x ∈ ss := by simpa [Label.Accepts, Label.accepts, SymbolSet.contains] using hx
    exact ⟨_, List.mem_map.2 ⟨x, hs, rfl⟩, mem_words_atom.2 ⟨x, by simp [Label.Accepts, Label.accepts], rfl⟩⟩
  · rintro ⟨p, hp, hw⟩
    obtain ⟨s, hs, rfl⟩ := List.mem_map.1 hp
    obtain ⟨x, hx, rfl⟩ := mem_words_atom.1 hw
    obtain rfl : s = x := by simpa [Label.Accepts, Label.accepts] using hx
    exact ⟨s, by simpa [Label.Accepts, Label.accepts, SymbolSet.contains] using hs, rfl⟩

mutual

/-- Merging alternatives of single symbols keeps the words of a pattern. -/
theorem words_mergeSymbols (p : Pattern (Label TokenKind (List TokenKind)) ρ) :
    words Label.Accepts E (mergeSymbols p) =
      words Label.Accepts E p := by
  match p with
  | .empty | .atom a | .ref r => rfl
  | .optional p => rw [mergeSymbols, words, words, words_mergeSymbols p]
  | .many p => rw [mergeSymbols, words, words, words_mergeSymbols p]
  | .many1 p => rw [mergeSymbols, words, words, words_mergeSymbols p]
  | .seq ps => rw [mergeSymbols, words, words, (wordsOf_mergeSymbolsAll ps).1]
  | .alt ps =>
    rw [mergeSymbols]
    split
    · rename_i a b rest hs
      rw [symbols?_eq_some hs]
      exact words_oneOf_eraseDups _
    · rw [words, words, (wordsOf_mergeSymbolsAll ps).2]

theorem wordsOf_mergeSymbolsAll (ps : List (Pattern (Label TokenKind (List TokenKind)) ρ)) :
    wordsOfSequence Label.Accepts E (mergeSymbolsAll ps) =
        wordsOfSequence Label.Accepts E ps ∧
      wordsOfAlternatives Label.Accepts E (mergeSymbolsAll ps) =
        wordsOfAlternatives Label.Accepts E ps := by
  match ps with
  | [] => exact ⟨rfl, rfl⟩
  | p :: ps =>
    obtain ⟨hseq, halt⟩ := wordsOf_mergeSymbolsAll ps
    have hp := words_mergeSymbols p
    constructor
    · rw [mergeSymbolsAll, wordsOfSequence, wordsOfSequence, hp, hseq]
    · rw [mergeSymbolsAll, wordsOfAlternatives, wordsOfAlternatives, hp, halt]

end

end Merge

/-! ### Leftmost expansions -/

theorem wordsOfSequence_append (ps qs : List (Pattern α ρ)) :
    wordsOfSequence accepts E (ps ++ qs) = wordsOfSequence accepts E ps * wordsOfSequence accepts E qs := by
  induction ps with
  | nil => rw [List.nil_append, wordsOfSequence, one_mul]
  | cons p ps ih => rw [List.cons_append, wordsOfSequence, wordsOfSequence, ih, mul_assoc]

theorem wordsOfSequence_singleton (p : Pattern α ρ) : wordsOfSequence accepts E [p] = words accepts E p := by
  rw [wordsOfSequence, wordsOfSequence, mul_one]

end Pattern

namespace RuleSystem

open Pattern

variable {α ρ σ : Type} {G : RuleSystem α ρ σ} {E : ρ → Language σ}

/-- What a pattern expands to stands for words of the pattern. -/
theorem Expands.mem_words (hE : ∀ {r p w}, G.body? r = some p → w ∈ words G.accepts E p → w ∈ E r)
    {p : Pattern α ρ} {F : Form α ρ} (h : G.Expands p F) {w : List σ} (hw : w ∈ wordsOfSequence G.accepts E F) :
    w ∈ words G.accepts E p := by
  cases h with
  | empty => rwa [wordsOfSequence] at hw
  | ref h =>
    rw [wordsOfSequence_singleton] at hw
    exact hE h hw
  | seq => rwa [words]
  | alt h =>
    rw [wordsOfSequence_singleton] at hw
    exact mem_wordsOfAlternatives.2 ⟨_, h, hw⟩
  | skip =>
    rw [wordsOfSequence] at hw
    exact Or.inl hw
  | take =>
    rw [wordsOfSequence_singleton] at hw
    exact Or.inr hw
  | stop =>
    rw [wordsOfSequence] at hw
    rw [words, ← Language.one_add_self_mul_kstar_eq_kstar]
    exact Or.inl hw
  | again =>
    rw [wordsOfSequence, wordsOfSequence_singleton, words] at hw
    rw [words, ← Language.one_add_self_mul_kstar_eq_kstar]
    exact Or.inr hw
  | many1 =>
    rw [wordsOfSequence, wordsOfSequence_singleton, words] at hw
    rwa [words]

/-- A word that is yielded can be continued with each word that remains. -/
theorem Yields.append_mem_words (hE : ∀ {r p w}, G.body? r = some p → w ∈ words G.accepts E p → w ∈ E r)
    {F R : Form α ρ} {v w : List σ} (h : G.Yields F w R) (hv : v ∈ wordsOfSequence G.accepts E R) :
    w ++ v ∈ wordsOfSequence G.accepts E F := by
  induction h with
  | refl F => exact hv
  | expand he _ ih =>
    rw [wordsOfSequence]
    have hw := ih hv
    rw [wordsOfSequence_append, Language.mem_mul] at hw
    obtain ⟨u, hu, u', hu', huu⟩ := hw
    exact huu ▸ Language.append_mem_mul (he.mem_words hE hu) hu'
  | @emit a x F R w ha _ ih =>
    rw [wordsOfSequence]
    exact Language.append_mem_mul (a := [x]) (mem_words_atom.2 ⟨x, ha, rfl⟩) (ih hv)

end RuleSystem

end Typeahead
