import Mathlib
import Typeahead.Proofs.Grammar.LeftRecursion
import Typeahead.Proofs.Grammar.Words

/-!
# Languages as least solutions

A system of rules is also a system of equations between languages: each rule stands for the words of its body, where
references stand for what their rules do.  Its least solution (`RuleSystem.language`) consists of the words that
leftmost expansions derive (`mem_language_iff`).  A loop in place of left recursion changes the equation of its rule,
but no part of the least solution (`language_withBody`).
-/

namespace Typeahead

namespace Pattern

open scoped Computability

variable {α ρ σ : Type} {accepts : α → σ → Prop} {E E' : ρ → Language σ}

mutual

/-- The more words references stand for, the more a pattern stands for. -/
theorem words_mono (h : E ≤ E') (p : Pattern α ρ) : words accepts E p ≤ words accepts E' p := by
  match p with
  | .empty | .atom a => exact le_rfl
  | .ref r =>
    rw [words, words]
    exact h r
  | .seq ps => exact (wordsOf_mono h ps).1
  | .alt ps => exact (wordsOf_mono h ps).2
  | .optional p =>
    rw [words, words]
    exact add_le_add_right (words_mono h p) 1
  | .many p =>
    rw [words, words]
    exact kstar_mono (words_mono h p)
  | .many1 p =>
    rw [words, words]
    exact mul_le_mul' (words_mono h p) (kstar_mono (words_mono h p))

theorem wordsOf_mono (h : E ≤ E') (ps : List (Pattern α ρ)) :
    wordsOfSequence accepts E ps ≤ wordsOfSequence accepts E' ps ∧
      wordsOfAlternatives accepts E ps ≤ wordsOfAlternatives accepts E' ps := by
  match ps with
  | [] => exact ⟨le_rfl, le_rfl⟩
  | p :: ps =>
    obtain ⟨hseq, halt⟩ := wordsOf_mono h ps
    rw [wordsOfSequence, wordsOfSequence, wordsOfAlternatives, wordsOfAlternatives]
    exact ⟨mul_le_mul' (words_mono h p) hseq, add_le_add (words_mono h p) halt⟩

end

end Pattern

namespace RuleSystem

open Pattern

variable {α ρ σ : Type} {G : RuleSystem α ρ σ}

/-! ### Equations -/

/-- The right-hand sides of the rule equations: the words of the body of each rule.  A rule that is not there has
none. -/
def equations (G : RuleSystem α ρ σ) : (ρ → Language σ) →o (ρ → Language σ) where
  toFun E r := {w | ∃ p, G.body? r = some p ∧ w ∈ p.words G.accepts E}
  monotone' := by
    rintro E E' h r w ⟨p, hp, hw⟩
    exact ⟨p, hp, words_mono h p hw⟩

theorem mem_equations_iff {E : ρ → Language σ} {r : ρ} {w : List σ} :
    w ∈ G.equations E r ↔ ∃ p, G.body? r = some p ∧ w ∈ p.words G.accepts E := Iff.rfl

/-- The language of each rule: the least solution of the rule equations. -/
def language (G : RuleSystem α ρ σ) : ρ → Language σ := G.equations.lfp

/-! ### Derivations -/

/-- What references derive. -/
def derived (G : RuleSystem α ρ σ) (r : ρ) : Language σ := {w | G.Derives [.ref r] w}

mutual

/-- A pattern derives its words, where references stand for what they derive. -/
theorem derives_of_mem_words (p : Pattern α ρ) {w : List σ} (h : w ∈ p.words G.accepts G.derived) :
    G.Derives [p] w := by
  match p with
  | .empty =>
    rw [words, Language.mem_one] at h
    exact derives_empty_iff.2 h
  | .atom a =>
    obtain ⟨x, hx, rfl⟩ := mem_words_atom.1 h
    exact .emit hx (.refl [])
  | .ref r =>
    rw [words] at h
    exact h
  | .seq ps => exact derives_seq_iff.2 (derives_of_mem_wordsOfSequence ps h)
  | .alt ps =>
    rw [words] at h
    obtain ⟨p, hp, hw⟩ := exists_derives_of_mem_wordsOfAlternatives ps h
    exact derives_alt_iff.2 ⟨p, hp, hw⟩
  | .optional p =>
    rw [words, Language.mem_add, Language.mem_one] at h
    rcases h with rfl | h
    · exact Expands.skip.derives (.refl [])
    · exact Expands.take.derives (derives_of_mem_words p h)
  | .many p =>
    rw [words] at h
    obtain ⟨rounds, rfl, hrounds⟩ := Language.mem_kstar.1 h
    exact derives_many_iff.2 ⟨rounds, rfl, fun x hx => derives_of_mem_words p (hrounds x hx)⟩
  | .many1 p =>
    rw [words] at h
    obtain ⟨u, hu, v, hv, rfl⟩ := Language.mem_mul.1 h
    obtain ⟨rounds, rfl, hrounds⟩ := Language.mem_kstar.1 hv
    have hmany : G.Derives [.many p] rounds.flatten :=
      derives_many_iff.2 ⟨rounds, rfl, fun x hx => derives_of_mem_words p (hrounds x hx)⟩
    exact Expands.many1.derives (derives_cons_iff.2 ⟨u, _, rfl, derives_of_mem_words p hu, hmany⟩)

theorem derives_of_mem_wordsOfSequence (ps : List (Pattern α ρ)) {w : List σ}
    (h : w ∈ wordsOfSequence G.accepts G.derived ps) : G.Derives ps w := by
  match ps with
  | [] =>
    rw [wordsOfSequence, Language.mem_one] at h
    exact derives_nil_iff.2 h
  | p :: ps =>
    rw [wordsOfSequence] at h
    obtain ⟨u, hu, v, hv, rfl⟩ := Language.mem_mul.1 h
    exact derives_cons_iff.2 ⟨u, v, rfl, derives_of_mem_words p hu, derives_of_mem_wordsOfSequence ps hv⟩

theorem exists_derives_of_mem_wordsOfAlternatives (ps : List (Pattern α ρ)) {w : List σ}
    (h : w ∈ wordsOfAlternatives G.accepts G.derived ps) : ∃ p ∈ ps, G.Derives [p] w := by
  match ps with
  | [] => exact absurd h (Language.notMem_zero w)
  | p :: ps =>
    rw [wordsOfAlternatives, Language.mem_add] at h
    rcases h with h | h
    · exact ⟨p, List.mem_cons_self .., derives_of_mem_words p h⟩
    · obtain ⟨q, hq, hw⟩ := exists_derives_of_mem_wordsOfAlternatives ps h
      exact ⟨q, List.mem_cons_of_mem _ hq, hw⟩

end

/-- The least solution of the rule equations is what leftmost expansions derive. -/
theorem mem_language_iff {r : ρ} {w : List σ} : w ∈ G.language r ↔ G.Derives [.ref r] w := by
  constructor
  · have hsolution : G.equations G.derived ≤ G.derived := by
      intro r w hw
      obtain ⟨p, hp, hw⟩ := mem_equations_iff.1 hw
      exact derives_ref_iff.2 ⟨p, hp, derives_of_mem_words p hw⟩
    intro hw
    exact OrderHom.lfp_le _ hsolution r hw
  · intro hw
    have hsolution : ∀ {r p w}, G.body? r = some p → w ∈ words G.accepts G.language p → w ∈ G.language r := by
      intro r p w hp hw
      unfold language
      rw [← OrderHom.map_lfp]
      exact mem_equations_iff.2 ⟨p, hp, hw⟩
    have hword := Yields.append_mem_words hsolution hw Language.nil_mem_one
    rwa [List.append_nil, wordsOfSequence_singleton, words] at hword

/-! ### Left recursion -/

/-- The system in which `p` is the body of one of the rules. -/
def withBody [DecidableEq ρ] (G : RuleSystem α ρ σ) (r : ρ) (p : Pattern α ρ) : RuleSystem α ρ σ :=
  { G with body? := Function.update G.body? r (some p) }

/-- Turning the left recursion of a rule into a loop changes the language of no rule, whatever the other rules are and
whatever stands before and behind the self references. -/
theorem language_withBody (S : RuleSystem α String σ) {name : String} {body q : Pattern α String}
    (hb : S.body? name = some body) (hq : body.withoutLeftRecursion? name = some q) :
    (S.withBody name q).language = S.language := by
  have hloops : TurnsIntoLoops S (S.withBody name q) := by
    refine ⟨fun _ _ => Iff.rfl, fun r => ?_⟩
    by_cases hr : r = name
    · subst hr
      exact Or.inr ⟨body, q, hb, hq, Function.update_self ..⟩
    · exact Or.inl (Function.update_of_ne hr ..)
  funext r
  ext w
  rw [mem_language_iff, mem_language_iff, hloops.derives_iff]

/-- Sums in which a bare self reference is an alternative, a summand is again a sum, and both a number at the beginning
and one behind a sum may be left out. -/
def looseSums : PhrasePattern :=
  .alt [.ref "sum", .seq [.ref "sum", .atom "PLUS", .ref "sum"], .seq [.ref "sum", .optional (.atom "NUM")],
    .optional (.atom "NUM")]

/-- Loose sums as a loop. -/
def loopedSums : PhrasePattern :=
  .seq [.optional (.atom "NUM"), .many (.alt [.seq [.atom "PLUS", .ref "sum"], .optional (.atom "NUM")])]

/-- The system in which loose sums are the only rule. -/
def sumSystem : RuleSystem String String TokenKind where
  accepts name kind := ["NUM", "PLUS"][kind]? = some name
  body? name := [("sum", looseSums)].lookup name

/-- Loose sums do the same as a loop. -/
theorem language_loopedSums :
    sumSystem.body? "sum" = some looseSums ∧ looseSums.withoutLeftRecursion? "sum" = some loopedSums ∧
      (sumSystem.withBody "sum" loopedSums).language = sumSystem.language :=
  ⟨rfl, rfl, language_withBody sumSystem rfl rfl⟩

end RuleSystem

end Typeahead
