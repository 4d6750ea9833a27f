import Typeahead.Proofs.Completion.LongestMatch

/-!
# Declarations that can be built

Once both networks of some declarations have been built and the start rule is known, only a token that matches the empty
text can be a fault.  The check for such tokens is a search in the lexical network, and what it finds is derived by the
expression of the token, so declarations whose tokens derive no empty word have a grammar (`exists_build_eq_ok`).
-/

namespace Typeahead.Declarations

variable {d : Declarations} {g : Grammar}

/-- A search that finds the end of a token at once has found a derivation of the empty word. -/
theorem Built.derives_nil_of_matchesEmpty (h : Built d g) {k : Nat} {t : TokenDecl} (hk : d.tokens[k]? = some t)
    (he : matchesEmpty g.lexical k = true) : d.lexicalSystem.Derives [t.body] [] := by
  obtain ⟨hstart, hreads⟩ := h.token_reads hk
  unfold matchesEmpty at he
  rw [hstart] at he
  obtain ⟨c, hc, hf⟩ := Network.acceptsEnd_iff.1 he
  obtain ⟨seed, hseed, hreach⟩ := Network.reachable_of_mem_visited hc
  obtain rfl := List.mem_singleton.1 hseed
  exact (hreads []).2.2.1.1 ⟨_, c, .nil _, hreach, hf⟩

/-- The table of tokens is complete unless one of them matches the empty text. -/
theorem tokenTable_eq_ok {net : LexicalNetwork} {l : List (TokenDecl × RuleId)}
    (h : ∀ x ∈ l, matchesEmpty net x.2 = false) :
    tokenTable net l = .ok (tokenEntries net l) := by
  induction l with
  | nil => rfl
  | cons x l ih =>
    obtain ⟨hx, hl⟩ := List.forall_mem_cons.1 h
    obtain ⟨t, rule⟩ := x
    rw [tokenTable, hx, if_neg Bool.false_ne_true, ih hl]
    rfl

/-- If each body is resolved, all are. -/
theorem exists_resolveBodies_eq_ok {α σ τ : Type}
    {resolve : String → Pattern α String → Except GrammarError (ResolvedPattern σ τ)} {P : ResolvedPattern σ τ → Prop}
    {l : List (String × Pattern α String)} (h : ∀ x ∈ l, ∃ p, resolve x.1 x.2 = .ok p ∧ P p) :
    ∃ ps, resolveBodies resolve l = .ok ps ∧ ∀ p ∈ ps, P p := by
  induction l with
  | nil => exact ⟨[], rfl, nofun⟩
  | cons x l ih =>
    obtain ⟨⟨p, hp, hP⟩, hl⟩ := List.forall_mem_cons.1 h
    obtain ⟨ps, hps, hPs⟩ := ih hl
    refine ⟨p :: ps, ?_, List.forall_mem_cons.2 ⟨hP, hPs⟩⟩
    rw [resolveBodies, hp, hps]
    rfl

/-- If both networks can be built, the start rule is known and no token derives the empty word, there is a grammar. -/
theorem exists_build_eq_ok {name : String} {lexical : LexicalNetwork} {phrase : PhraseNetwork} {start : RuleId}
    (hstart : d.start = some name) (hl : d.buildLexical = .ok lexical) (hp : d.buildPhrase = .ok phrase)
    (hrule : (d.rules.map (·.1)).idxOf? name = some start)
    (he : ∀ t ∈ d.tokens, ¬ d.lexicalSystem.Derives [t.body] []) :
    ∃ g, d.build = .ok g ∧ g.lexical = lexical ∧ g.phrase = phrase ∧ g.startRule = start := by
  let g : Grammar := ⟨lexical, phrase, (tokenEntries lexical d.tokens.zipIdx).toArray, start⟩
  have hg : Built d g := built_of_networks hl hp ⟨name, hstart, getElem?_of_idxOf? hrule⟩ rfl
  have htable : tokenTable lexical d.tokens.zipIdx = .ok (tokenEntries lexical d.tokens.zipIdx) := by
    refine tokenTable_eq_ok fun x hx => Bool.eq_false_iff.2 fun hempty => ?_
    have hk : d.tokens[x.2]? = some x.1 := List.mem_zipIdx_iff_getElem?.1 hx
    exact he x.1 (List.mem_of_getElem? hk) (hg.derives_nil_of_matchesEmpty hk hempty)
  refine ⟨g, ?_, rfl, rfl, rfl⟩
  unfold build
  rw [hstart]
  simp only [except_bind_eq_ok]
  exact ⟨lexical, hl, phrase, hp, start, number_eq_ok_iff.2 hrule, _, htable, rfl⟩

end Typeahead.Declarations
