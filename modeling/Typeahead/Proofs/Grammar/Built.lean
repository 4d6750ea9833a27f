import Mathlib.Data.List.Nodup
import Typeahead.Grammar.Declarations
import Typeahead.Proofs.Grammar.Resolution

/-!
# What a built grammar is made of

`Declarations.build` succeeds only if all names are distinct and all references resolve; the grammar then consists of
the networks laid out for the resolved bodies and of one entry for each token (`built_of_build`).
-/

namespace Typeahead

namespace Declarations

variable {α σ τ : Type}

/-! ### Names -/

theorem nodup_of_checkDistinct {error : String → GrammarError} {taken names : List String} {u : Unit}
    (h : checkDistinct error taken names = .ok u) : names.Nodup ∧ ∀ name ∈ names, name ∉ taken := by
  fun_induction checkDistinct error taken names with
  | case1 => simp
  | case2 => cases h
  | case3 taken name names hn ih =>
    obtain ⟨hnodup, hnew⟩ := ih h
    refine ⟨List.nodup_cons.2 ⟨?_, hnodup⟩, ?_⟩
    · exact fun hmem => hnew name hmem (List.mem_cons_self ..)
    · intro x hx
      rcases List.mem_cons.1 hx with rfl | hx
      · exact hn
      · exact fun htaken => hnew x hx (List.mem_cons_of_mem _ htaken)

theorem number_eq_ok_iff {names : List String} {error : GrammarError} {name : String} {i : Nat} :
    number names error name = .ok i ↔ names.idxOf? name = some i := by
  unfold number
  cases names.idxOf? name with
  | none => simp
  | some j => simp

theorem getElem?_of_idxOf? {names : List String} {name : String} {i : Nat} (h : names.idxOf? name = some i) :
    names[i]? = some name := by
  obtain ⟨hi, hname, -⟩ := List.idxOf?_eq_some_iff.1 h
  rw [List.getElem?_eq_getElem hi, hname]

/-- Distinct names are told apart by their numbers. -/
theorem eq_of_getElem? {names : List String} (h : names.Nodup) {name : String} {i j : Nat}
    (hi : names[i]? = some name) (hj : names[j]? = some name) : i = j :=
  (List.getElem?_inj (List.getElem?_eq_some_iff.1 hi).1 h).1 (hi.trans hj.symm)

theorem lookup_of_mem {β : Type} {l : List (String × β)} (h : (l.map (·.1)).Nodup) {name : String} {b : β}
    (hm : (name, b) ∈ l) : l.lookup name = some b := by
  induction l with
  | nil => cases hm
  | cons nc l ih =>
    obtain ⟨other, c⟩ := nc
    obtain ⟨hnew, hl⟩ := List.nodup_cons.1 h
    rcases List.mem_cons.1 hm with he | hm
    · cases he
      exact List.lookup_cons_self
    · have hne : name ≠ other := fun he => hnew (List.mem_map.2 ⟨_, hm, he⟩)
      rw [List.lookup_cons, beq_false_of_ne hne]
      exact ih hl hm

/-! ### Bodies -/

theorem forall₂_of_resolveBodies
    {resolve : String → Pattern α String → Except GrammarError (ResolvedPattern σ τ)}
    {l : List (String × Pattern α String)} {ps : List (ResolvedPattern σ τ)}
    (h : resolveBodies resolve l = .ok ps) : List.Forall₂ (fun nb p => resolve nb.1 nb.2 = .ok p) l ps := by
  induction l generalizing ps with
  | nil =>
    cases h
    exact .nil
  | cons nb l ih =>
    simp only [resolveBodies, except_bind_eq_ok] at h
    obtain ⟨p, hp, qs, hqs, h⟩ := h
    cases h
    exact .cons hp (ih hqs)

/-- The entry of a token in the token table. -/
def tokenEntry (net : LexicalNetwork) (kind : TokenKind) (t : TokenDecl) : TokenDef :=
  ⟨kind, t.name, kind, t.skip, (net.spellings? kind).getD []⟩

/-- The entries of numbered tokens. -/
def tokenEntries (net : LexicalNetwork) (l : List (TokenDecl × TokenKind)) : List TokenDef :=
  l.map fun (t, kind) => tokenEntry net kind t

theorem tokenTable_eq {net : LexicalNetwork} {l : List (TokenDecl × TokenKind)} {ts : List TokenDef}
    (h : tokenTable net l = .ok ts) : ts = tokenEntries net l := by
  induction l generalizing ts with
  | nil =>
    cases h
    rfl
  | cons tr l ih =>
    rw [tokenTable] at h
    split at h
    · cases h
    · obtain ⟨rest, hrest, rfl⟩ := except_map_eq_ok.1 h
      rw [ih hrest]
      rfl

/-! ### Grammars -/

/-- A grammar has been built from declarations. -/
structure Built (d : Declarations) (g : Grammar) : Prop where
  nodup_tokens : (d.tokens.map (·.name)).Nodup
  nodup_lexical : d.lexicalNames.Nodup
  nodup_rules : (d.rules.map (·.1)).Nodup
  lexical : ∃ bodies, resolveBodies (resolveLexical d.lexicalNames) d.lexicalBodies = .ok bodies ∧
    g.lexical = layOutBodies (declareRules d.lexicalNames) bodies
  phrase : ∃ bodies, resolveBodies (resolvePhrase (d.tokens.map (·.name)) (d.rules.map (·.1))) d.rules = .ok bodies ∧
    g.phrase = layOutBodies (declareRules (d.rules.map (·.1))) bodies
  start : ∃ name, d.start = some name ∧ (d.rules.map (·.1))[g.startRule]? = some name
  tokens : ∀ kind : Nat, g.token? kind = d.tokens[kind]?.map (tokenEntry g.lexical kind)

/-- Tokens come first among the lexical rules. -/
theorem map_lexicalBodies (d : Declarations) : d.lexicalBodies.map (·.1) = d.lexicalNames := by
  unfold lexicalBodies lexicalNames
  rw [List.map_append, List.map_map]
  rfl

/-- A grammar has been built if its networks have been and its tokens are those that are declared. -/
theorem built_of_networks {d : Declarations} {g : Grammar} (hl : d.buildLexical = .ok g.lexical)
    (hp : d.buildPhrase = .ok g.phrase)
    (hs : ∃ name, d.start = some name ∧ (d.rules.map (·.1))[g.startRule]? = some name)
    (ht : g.tokens = (tokenEntries g.lexical d.tokens.zipIdx).toArray) : Built d g := by
  simp only [except_bind_eq_ok, buildLexical] at hl
  simp only [except_bind_eq_ok, buildPhrase] at hp
  obtain ⟨_, htokens, _, hfragments, lbodies, hlexical, hl⟩ := hl
  obtain ⟨_, hrules, pbodies, hphrase, hp⟩ := hp
  obtain ⟨hnodup, -⟩ := nodup_of_checkDistinct htokens
  obtain ⟨hnodup', hdisjoint⟩ := nodup_of_checkDistinct hfragments
  refine ⟨hnodup, ?_, (nodup_of_checkDistinct hrules).1, ⟨lbodies, hlexical, (Except.ok.inj hl).symm⟩,
    ⟨pbodies, hphrase, (Except.ok.inj hp).symm⟩, hs, ?_⟩
  · exact List.nodup_append.2 ⟨hnodup, hnodup', fun x hx y hy hxy => hdisjoint y hy (hxy ▸ hx)⟩
  · intro kind
    unfold Grammar.token?
    rw [ht, List.getElem?_toArray, tokenEntries, List.getElem?_map, List.getElem?_zipIdx, Option.map_map]
    simp [Function.comp_def]

theorem built_of_build {d : Declarations} {g : Grammar} (h : d.build = .ok g) : Built d g := by
  unfold build at h
  split at h
  · cases h
  · rename_i start hstart
    simp only [except_bind_eq_ok] at h
    obtain ⟨lexical, hl, phrase, hp, startRule, hnumber, tokens, htable, hg⟩ := h
    cases hg
    refine built_of_networks hl hp ⟨start, hstart, getElem?_of_idxOf? (number_eq_ok_iff.1 hnumber)⟩ ?_
    rw [tokenTable_eq htable]

theorem Built.getElem?_tokens {d : Declarations} {g : Grammar} (h : Built d g) (k : Nat) :
    g.tokens[k]? = d.tokens[k]?.map (tokenEntry g.lexical k) :=
  h.tokens k

/-- The stored kind of a token is its position, and its rule has the same number. -/
theorem Built.kind_and_rule {d : Declarations} {g : Grammar} (h : Built d g) {kind : TokenKind} {t : TokenDef}
    (ht : g.token? kind = some t) : t.kind = kind ∧ t.rule = kind := by
  rw [h.tokens] at ht
  obtain ⟨_, -, rfl⟩ := Option.map_eq_some_iff.1 ht
  exact ⟨rfl, rfl⟩

end Declarations

end Typeahead
