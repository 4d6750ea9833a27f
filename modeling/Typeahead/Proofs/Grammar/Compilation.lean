import Mathlib
import Typeahead.Proofs.Grammar.Declared
import Typeahead.Proofs.Network.Paths

/-!
# Rules as they are compiled

A rule is compiled by resolving the names of its body and laying the result out in the network.  The paths from the
start of the rule to its stop then spell exactly the words of the body as it is written, whatever the rules that it
refers to stand for, and in a built grammar, where all bodies are laid out one after the other, they do so for every
rule (`compile_exact`).
-/

namespace Typeahead

open Network Pattern

namespace Declarations

variable {σ τ : Type}

/-- The languages of numbered rules, given by their names. -/
def languages (names : List String) (E : String → Language σ) (rule : RuleId) : Language σ :=
  match names[rule]? with
  | some name => E name
  | none => 0

theorem languages_of_number {names : List String} {E : String → Language σ} {error : GrammarError} {name : String}
    {rule : RuleId} (h : number names error name = .ok rule) : languages names E rule = E name := by
  unfold languages
  rw [getElem?_of_idxOf? (number_eq_ok_iff.1 h)]

/-- Resolving a lexical body keeps its words. -/
theorem words_resolveLexical {names : List String} {owner : String} {body : LexPattern}
    {q : ResolvedPattern Char Text.CharSet} (h : resolveLexical names owner body = .ok q) (E : String → Language Char) :
    q.words Label.Accepts (languages names E) = body.words LexAtom.Accepts E :=
  words_resolve (fun ha x => (accepts_iff_of_lexicalLabel ha x).symm) languages_of_number body h

/-- Resolving a phrase body and merging its alternatives keeps its words. -/
theorem words_resolvePhrase {tokens names : List String} {owner : String} {body : PhrasePattern}
    {q : ResolvedPattern TokenKind (List TokenKind)}
    (h : body.resolve (fun name => (number tokens (.undefinedToken owner name) name).map .symbol)
      (fun name => number names (.undefinedRule owner name) name) = .ok q) (E : String → Language TokenKind) :
    q.mergeSymbols.words Label.Accepts (languages names E) =
      body.words (fun name kind => tokens.idxOf? name = some kind) E := by
  rw [words_mergeSymbols]
  refine words_resolve (fun {name label} hl kind => ?_) languages_of_number body h
  obtain ⟨i, hi, rfl⟩ := except_map_eq_ok.1 hl
  rw [number_eq_ok_iff] at hi
  simp [Label.Accepts, Label.accepts, hi]

variable {d : Declarations} {g : Grammar}

/-- In a built grammar the paths through each lexical rule spell the words of its body. -/
theorem Built.spells_lexical_iff (h : Built d g) {rule : Nat} {name : String} {body : LexPattern}
    (hr : d.lexicalBodies[rule]? = some (name, body)) (E : String → Language Char) (w : List Char) :
    g.lexical.Spells (languages d.lexicalNames E) (2 * rule) w (2 * rule + 1) ↔ w ∈ body.words LexAtom.Accepts E := by
  obtain ⟨bodies, hres, hnet⟩ := h.lexical
  obtain ⟨q, hq, hbody⟩ := exists_resolved hres hr
  have hlen := length_of_resolveBodies hres
  rw [map_lexicalBodies] at hlen
  rw [hnet, spells_layOutBodies_iff hlen hq, words_resolveLexical hbody]

/-- In a built grammar the paths through each phrase rule spell the words of its body, with loops in place of left
recursion. -/
theorem Built.spells_phrase_iff (h : Built d g) {rule : Nat} {name : String} {body : PhrasePattern}
    (hr : d.rules[rule]? = some (name, body)) (E : String → Language TokenKind) (w : List TokenKind) :
    g.phrase.Spells (languages (d.rules.map (·.1)) E) (2 * rule) w (2 * rule + 1) ↔
      w ∈ ((body.withoutLeftRecursion? name).getD body).words
        (fun name kind => (d.tokens.map (·.name)).idxOf? name = some kind) E := by
  obtain ⟨bodies, hres, hnet⟩ := h.phrase
  obtain ⟨q, hq, hbody⟩ := exists_resolved hres hr
  simp only [resolvePhrase, except_bind_eq_ok] at hbody
  obtain ⟨p, hp, hmerge⟩ := hbody
  cases hmerge
  rw [hnet, spells_layOutBodies_iff (length_of_resolveBodies hres) hq, words_resolvePhrase hp]

/-- Compiling a rule preserves meaning.  Once the body of a lexical or a phrase rule is resolved and laid out, the paths
through the rule, on which a call spells any word of the called rule, spell the words of the body; and no state of
another rule has gained a transition.  So in a built grammar the paths through each rule spell the words of its body. -/
theorem compile_exact :
    (∀ (names : List String) (owner : String) (body : LexPattern) (q : ResolvedPattern Char Text.CharSet),
      resolveLexical names owner body = .ok q →
      ∀ (net : LexicalNetwork) (rule : RuleId) (info : Rule), net.Bodiless rule info →
        (∀ E w, (net.layOutRule rule q).Spells (languages names E) info.start w info.stop ↔
          w ∈ body.words LexAtom.Accepts E) ∧
        ∀ s, (net.layOutRule rule q).owner? s ≠ some rule →
          (net.layOutRule rule q).transitions s = net.transitions s) ∧
    (∀ (tokens names : List String) (owner : String) (body : PhrasePattern)
      (q : ResolvedPattern TokenKind (List TokenKind)),
      body.resolve (fun name => (number tokens (.undefinedToken owner name) name).map .symbol)
        (fun name => number names (.undefinedRule owner name) name) = .ok q →
      ∀ (net : PhraseNetwork) (rule : RuleId) (info : Rule), net.Bodiless rule info →
        (∀ E w, (net.layOutRule rule q.mergeSymbols).Spells (languages names E) info.start w info.stop ↔
          w ∈ body.words (fun name kind => tokens.idxOf? name = some kind) E) ∧
        ∀ s, (net.layOutRule rule q.mergeSymbols).owner? s ≠ some rule →
          (net.layOutRule rule q.mergeSymbols).transitions s = net.transitions s) ∧
    ∀ (d : Declarations) (g : Grammar), d.build = .ok g →
      (∀ (rule : Nat) name body, d.lexicalBodies[rule]? = some (name, body) → ∀ E w,
        g.lexical.Spells (languages d.lexicalNames E) (2 * rule) w (2 * rule + 1) ↔
          w ∈ body.words LexAtom.Accepts E) ∧
      ∀ (rule : Nat) name body, d.rules[rule]? = some (name, body) → ∀ E w,
        g.phrase.Spells (languages (d.rules.map (·.1)) E) (2 * rule) w (2 * rule + 1) ↔
          w ∈ ((body.withoutLeftRecursion? name).getD body).words
            (fun name kind => (d.tokens.map (·.name)).idxOf? name = some kind) E := by
  refine ⟨?_, ?_, fun d g hd => ?_⟩
  · intro names owner body q hq net rule info h
    refine ⟨fun E w => ?_, fun s => h.transitions_layOutRule q⟩
    rw [h.spells_iff, words_resolveLexical hq]
  · intro tokens names owner body q hq net rule info h
    refine ⟨fun E w => ?_, fun s => h.transitions_layOutRule q.mergeSymbols⟩
    rw [h.spells_iff, words_resolvePhrase hq]
  · have h := built_of_build hd
    exact ⟨fun _ _ _ hr => h.spells_lexical_iff hr, fun _ _ _ hr => h.spells_phrase_iff hr⟩

/-- Any number of signs, at least one. -/
def signs : Declarations :=
  { tokens := [⟨"+", .literal "+", false⟩, ⟨"-", .literal "-", false⟩]
    rules := [("signs", .many1 (.alt [.atom "+", .atom "-"]))]
    start := some "signs" }

/-- A word of letters is any number of letters but none, two tokens side by side are merged, and signs can be built. -/
theorem compile_letters_and_signs :
    (((declareRules ["word", "letter"] : LexicalNetwork).layOutRule 0 (.many1 (.ref 1))).Spells
        (languages ["word", "letter"] fun _ => {['a'], ['b']}) 0 ['a', 'b'] 1) ∧
      (∀ kind, ((declareRules ["sign"] : PhraseNetwork).layOutRule 0 (.atom (.oneOf [0, 2]))).Spells
        (languages ["sign"] fun _ => 0) 0 [kind] 1 ↔ kind = 0 ∨ kind = 2) ∧
      ∃ g, signs.build = .ok g ∧ g.phrase.Spells (languages ["signs"] fun _ => 0) 0 [1, 0] 1 := by
  have hword : (declareRules ["word", "letter"] : LexicalNetwork).Bodiless 0 ⟨"word", 0, 1⟩ :=
    (declares_declareRules _).bodiless (by decide)
  have hsign : (declareRules ["sign"] : PhraseNetwork).Bodiless 0 ⟨"sign", 0, 1⟩ :=
    (declares_declareRules _).bodiless (by decide)
  obtain ⟨g, hg, -⟩ : ∃ g, signs.build = .ok g ∧ True := except_exists_of_any (by cbv)
  obtain ⟨hlexical, hphrase, hbuilt⟩ := compile_exact
  refine ⟨?_, ?_, g, hg, ?_⟩
  · refine ((hlexical _ "word" (.many1 (.ref "letter")) _ rfl _ 0 _ hword).1 _ _).2 ?_
    rw [words, words]
    refine Language.append_mem_mul (a := ['a']) (Or.inl rfl) ?_
    exact Language.mem_kstar.2 ⟨[['b']], rfl, List.forall_mem_singleton.2 (Or.inr rfl)⟩
  · intro kind
    have hplus : ["+", "1", "-"].idxOf? "+" = some 0 := by decide
    have hminus : ["+", "1", "-"].idxOf? "-" = some 2 := by decide
    refine ((hphrase ["+", "1", "-"] _ "sign" (.alt [.atom "+", .atom "-"]) _ rfl _ 0 _ hsign).1 _ [kind]).trans ?_
    rw [words, mem_wordsOfAlternatives]
    simp [mem_words_atom, hplus, hminus, eq_comm]
  · have hsigns : ∀ kind ∈ [1, 0], [kind] ∈ words (fun name kind => ["+", "-"].idxOf? name = some kind) (fun _ => 0)
        (.alt [.atom "+", .atom "-"] : PhrasePattern) := by
      intro kind hkind
      have hplus : ["+", "-"].idxOf? "+" = some 0 := by decide
      have hminus : ["+", "-"].idxOf? "-" = some 1 := by decide
      rw [words, mem_wordsOfAlternatives]
      simpa [mem_words_atom, hplus, hminus, eq_comm, or_comm] using hkind
    refine ((hbuilt signs g hg).2 0 "signs" _ rfl _ [1, 0]).2 ?_
    show _ ∈ words _ _ (.many1 (.alt [.atom "+", .atom "-"]))
    rw [words]
    refine Language.append_mem_mul (a := [1]) (hsigns 1 (by decide)) ?_
    exact Language.mem_kstar.2 ⟨[[0]], rfl, List.forall_mem_singleton.2 (hsigns 0 (by decide))⟩

end Declarations

end Typeahead
