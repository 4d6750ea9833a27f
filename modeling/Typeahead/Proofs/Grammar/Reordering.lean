import Mathlib
import Typeahead.Proofs.Grammar.WellFormed
import Typeahead.Proofs.Network.Reordering

/-!
# Declarations in another order

The order in which fragments and phrase rules are declared decides how the rules of a grammar are numbered, and nothing
else.  Resolving a body under other numbers renumbers its references (`Pattern.resolve_mapRefs`), so the bodies of
shuffled declarations are those of the given ones in another order, and if these are built, so are the shuffled ones,
into a grammar that has the same tokens and differs in the numbers of rules and states only (`Shuffled.exists_build`).
-/

namespace Typeahead

/-! ### Renumbered references -/

namespace Pattern

variable {α β ρ κ μ ε σ τ : Type} {atom : α → Except ε β} {ref : ρ → Except ε κ}

mutual

/-- Renumbering what names are resolved to renumbers the references of the resolved pattern. -/
theorem resolve_mapRefs (f : κ → μ) (p : Pattern α ρ) :
    p.resolve atom (fun r => (ref r).map f) = (p.resolve atom ref).map (mapRefs f) := by
  match p with
  | .empty => rfl
  | .atom a =>
    rw [resolve, resolve]
    cases atom a <;> rfl
  | .ref r =>
    rw [resolve, resolve]
    cases ref r <;> rfl
  | .seq ps | .alt ps =>
    rw [resolve, resolve, resolveAll_mapRefs f ps]
    cases resolveAll atom ref ps <;> rfl
  | .optional p | .many p | .many1 p =>
    rw [resolve, resolve, resolve_mapRefs f p]
    cases p.resolve atom ref <;> rfl

theorem resolveAll_mapRefs (f : κ → μ) (ps : List (Pattern α ρ)) :
    resolveAll atom (fun r => (ref r).map f) ps = (resolveAll atom ref ps).map (mapRefsAll f) := by
  match ps with
  | [] => rfl
  | p :: ps =>
    rw [resolveAll, resolveAll, resolve_mapRefs f p, resolveAll_mapRefs f ps]
    cases p.resolve atom ref with
    | error e => rfl
    | ok q => cases resolveAll atom ref ps <;> rfl

end

theorem symbols?_mapRefsAll (f : ρ → κ) (ps : List (Pattern (Label σ τ) ρ)) :
    symbols? (mapRefsAll f ps) = symbols? ps := by
  fun_induction symbols? ps with
  | case1 => rfl
  | case2 s ps ih => rw [mapRefsAll, mapRefs, symbols?, ih]
  | case3 p ps hp =>
    cases p with
    | atom label =>
      cases label with
      | symbol s => exact (hp s rfl).elim
      | oneOf set => rfl
    | _ => rfl

mutual

theorem mergeSymbols_mapRefs [BEq σ] (f : ρ → κ) (p : Pattern (Label σ (List σ)) ρ) :
    (p.mapRefs f).mergeSymbols = p.mergeSymbols.mapRefs f := by
  match p with
  | .empty | .atom a | .ref r => rfl
  | .seq ps =>
    rw [mapRefs, mergeSymbols, mergeSymbolsAll_mapRefs f ps]
    rfl
  | .alt ps =>
    rw [mapRefs, mergeSymbols, mergeSymbols, symbols?_mapRefsAll]
    split
    · rfl
    · rw [mergeSymbolsAll_mapRefs f ps]
      rfl
  | .optional p | .many p | .many1 p =>
    rw [mapRefs, mergeSymbols, mergeSymbols_mapRefs f p]
    rfl

theorem mergeSymbolsAll_mapRefs [BEq σ] (f : ρ → κ) (ps : List (Pattern (Label σ (List σ)) ρ)) :
    mergeSymbolsAll (mapRefsAll f ps) = mapRefsAll f (mergeSymbolsAll ps) := by
  match ps with
  | [] => rfl
  | p :: ps => rw [mapRefsAll, mergeSymbolsAll, mergeSymbolsAll, mapRefsAll, mergeSymbols_mapRefs f p,
      mergeSymbolsAll_mapRefs f ps]

end

end Pattern

/-- If a list is shuffled, its items get new numbers. -/
theorem exists_renumbering {A : Type} {l l' : List A} (h : l.Perm l') :
    ∃ f : Nat → Nat, f.Injective ∧ ∀ i, l'[f i]? = l[i]? := by
  induction h with
  | nil => exact ⟨id, Function.injective_id, fun _ => rfl⟩
  | cons a _ ih =>
    obtain ⟨f, hf, hget⟩ := ih
    refine ⟨fun i => i.casesOn 0 fun i => f i + 1, ?_, ?_⟩
    · rintro (_ | i) (_ | j) h
      · rfl
      · cases h
      · cases h
      · exact congrArg _ (hf (Nat.succ.inj h))
    · rintro (_ | i)
      · rfl
      · exact hget i
  | swap a b l =>
    refine ⟨Equiv.swap 0 1, (Equiv.swap 0 1).injective, ?_⟩
    rintro (_ | _ | i)
    · rfl
    · rfl
    · rw [Equiv.swap_apply_of_ne_of_ne (by omega) (by omega)]
      rfl
  | trans _ _ ih ih' =>
    obtain ⟨f, hf, hget⟩ := ih
    obtain ⟨f', hf', hget'⟩ := ih'
    exact ⟨f' ∘ f, hf'.comp hf, fun i => (hget' (f i)).trans (hget i)⟩

namespace Declarations

/-! ### Renumbered bodies -/

section Bodies

variable {α σ τ : Type} {f : RuleId → RuleId} {names names' : List String} {l l' : List (String × Pattern α String)}
  {resolve resolve' : String → Pattern α String → Except GrammarError (ResolvedPattern σ τ)}

theorem number_of_perm (hp : names.Perm names') (hn : names.Nodup) (hf : ∀ i : Nat, names'[f i]? = names[i]?)
    (error : GrammarError) (name : String) :
    number names' error name = (number names error name).map f := by
  cases hi : number names error name with
  | ok i =>
    rw [number_eq_ok_iff_getElem? hn] at hi
    exact (number_eq_ok_iff_getElem? (hp.nodup hn)).2 ((hf i).trans hi)
  | error e =>
    have hname : names.idxOf? name = none := by
      unfold number at hi
      split at hi
      · cases hi
      · assumption
    have hname' : names'.idxOf? name = none := by
      rw [List.idxOf?_eq_none_iff] at hname ⊢
      exact fun h => hname (hp.mem_iff.2 h)
    unfold number at hi ⊢
    rw [hname] at hi
    rw [hname', hi]
    rfl

theorem resolveBodies_of_forall₂ {bodies : List (ResolvedPattern σ τ)}
    (h : List.Forall₂ (fun nb p => resolve nb.1 nb.2 = .ok p) l bodies) : resolveBodies resolve l = .ok bodies := by
  induction h with
  | nil => rfl
  | cons hp _ ih =>
    rw [resolveBodies, hp, ih]
    rfl

theorem all_of_resolveBodies {bodies : List (ResolvedPattern σ τ)} {B : RuleId → Prop}
    (h : resolveBodies resolve l = .ok bodies) (hB : ∀ {owner p q}, resolve owner p = .ok q → q.All (fun _ => True) B) :
    ∀ p ∈ bodies, p.All (fun _ => True) B := by
  intro q hq
  obtain ⟨_, -, hp⟩ := RuleSystem.exists_mem_of_forall₂ (forall₂_of_resolveBodies h).flip hq
  exact hB hp

/-- If the bodies of a list are resolved, so are those of the shuffled list, with renumbered references. -/
theorem exists_reorders {bodies : List (ResolvedPattern σ τ)} (h : resolveBodies resolve l = .ok bodies)
    (hp : l.Perm l') (hnames : l.map (·.1) = names) (hnames' : l'.map (·.1) = names') (hinj : f.Injective)
    (hf : ∀ i : Nat, l'[f i]? = l[i]?)
    (hres : ∀ owner p, resolve' owner p = (resolve owner p).map (Pattern.mapRefs f))
    (hrefs : ∀ {owner p q}, resolve owner p = .ok q → q.All (fun _ => True) (· < names.length))
    (hrefs' : ∀ {owner p q}, resolve' owner p = .ok q → q.All (fun _ => True) (· < names'.length)) :
    ∃ bodies', resolveBodies resolve' l' = .ok bodies' ∧ Network.Reorders f names names' bodies bodies' := by
  obtain ⟨qs, hqs, hperm⟩ := List.perm_comp_forall₂ hp.symm (forall₂_of_resolveBodies h)
  have h' : resolveBodies resolve' l' = .ok (qs.map (Pattern.mapRefs f)) := by
    refine resolveBodies_of_forall₂ (List.forall₂_map_right_iff.2 (hqs.imp fun nb q hq => ?_))
    rw [hres, hq]
    rfl
  have hlength := length_of_resolveBodies h
  have hlength' := length_of_resolveBodies h'
  refine ⟨_, h', hinj, fun i => ?_, hperm.map _, hnames ▸ hlength, hnames' ▸ hlength', all_of_resolveBodies h hrefs,
    all_of_resolveBodies h' hrefs'⟩
  cases hi : l[i]? with
  | none =>
    have hi' : l'[f i]? = none := (hf i).trans hi
    rw [List.getElem?_eq_none_iff] at hi hi'
    rw [List.length_map] at hlength hlength'
    rw [hlength] at hi
    rw [hlength'] at hi'
    rw [List.getElem?_eq_none hi, List.getElem?_eq_none hi']
    rfl
  | some nb =>
    obtain ⟨name, p⟩ := nb
    obtain ⟨q, hq, hp⟩ := exists_resolved h hi
    obtain ⟨q', hq', hp'⟩ := exists_resolved h' ((hf i).trans hi)
    rw [hres, hp] at hp'
    cases hp'
    rw [hq, hq']
    rfl

end Bodies

/-! ### Shuffled declarations -/

/-- The same declarations, but the fragments and the phrase rules are declared in another order. -/
structure Shuffled (d d' : Declarations) : Prop where
  tokens : d'.tokens = d.tokens
  start : d'.start = d.start
  fragments : d.fragments.Perm d'.fragments
  rules : d.rules.Perm d'.rules

end Declarations

/-- The grammars have the same tokens, and differ in the numbers of rules and states only. -/
structure Grammar.Renumbers (g g' : Grammar) : Prop where
  tokens : g'.tokens = g.tokens
  lexical : ∃ f S, g.lexical.Renumbers f S g'.lexical ∧ ∀ t ∈ g.tokens, f t.rule = t.rule
  phrase : ∃ f S, g.phrase.Renumbers f S g'.phrase ∧ g'.startRule = f g.startRule

namespace Declarations

variable {d d' : Declarations} {g : Grammar}

/-- Tokens that keep their numbers keep their entries. -/
theorem tokenTable_of_renumbers {f : RuleId → RuleId} {S : StateId → StateId → Prop} {net net' : LexicalNetwork}
    (hn : net.Renumbers f S net') {l : List (TokenDecl × RuleId)} (hl : ∀ x ∈ l, f x.2 = x.2) :
    tokenTable net' l = tokenTable net l := by
  induction l with
  | nil => rfl
  | cons x l ih =>
    obtain ⟨t, rule⟩ := x
    obtain ⟨hrule, hl⟩ := List.forall_mem_cons.1 hl
    have hempty : matchesEmpty net' (f rule) = matchesEmpty net rule :=
      (hn.closure {} (hn.seeds rule)).acceptsEnd_eq
    have hspellings := hn.spellings?_eq rule
    rw [hrule] at hempty hspellings
    rw [tokenTable, tokenTable, hempty, hspellings, ih hl]

/-! ### Lexical rules -/

theorem resolveLexical_of_perm {names names' : List String} {f : RuleId → RuleId} (hp : names.Perm names')
    (hn : names.Nodup) (hf : ∀ i : Nat, names'[f i]? = names[i]?) (owner : String) (p : LexPattern) :
    resolveLexical names' owner p = (resolveLexical names owner p).map (Pattern.mapRefs f) := by
  unfold resolveLexical
  rw [← Pattern.resolve_mapRefs]
  simp only [number_of_perm hp hn hf]

theorem all_of_resolveLexical {names : List String} {owner : String} {p : LexPattern}
    {q : ResolvedPattern Char Text.CharSet} (h : resolveLexical names owner p = .ok q) :
    q.All (fun _ => True) (· < names.length) :=
  Pattern.all_of_resolve (fun _ => trivial) lt_of_number _ h

theorem Shuffled.perm_lexicalBodies (h : d.Shuffled d') : d.lexicalBodies.Perm d'.lexicalBodies := by
  unfold lexicalBodies
  rw [h.tokens]
  exact h.fragments.append_left _

theorem Shuffled.perm_lexicalNames (h : d.Shuffled d') : d.lexicalNames.Perm d'.lexicalNames := by
  rw [← map_lexicalBodies, ← map_lexicalBodies]
  exact h.perm_lexicalBodies.map _

theorem getElem?_lexicalNames {k : Nat} (hk : k < d.tokens.length) :
    d.lexicalNames[k]? = d.tokens[k]?.map (·.name) := by
  rw [lexicalNames, List.getElem?_append_left (by rwa [List.length_map]), List.getElem?_map]

/-- The names begin with the tokens in both lists, so tokens keep their numbers. -/
theorem Shuffled.apply_token (h : d.Shuffled d') (hn : d.lexicalNames.Nodup) {f : RuleId → RuleId}
    (hf : ∀ i : Nat, d'.lexicalNames[f i]? = d.lexicalNames[i]?) {k : Nat} (hk : k < d.tokens.length) : f k = k := by
  have hname : d.lexicalNames[k]? = some d.tokens[k].name := by
    rw [getElem?_lexicalNames hk, List.getElem?_eq_getElem hk]
    rfl
  refine eq_of_getElem? (h.perm_lexicalNames.nodup hn) ((hf k).trans hname) ?_
  rw [getElem?_lexicalNames (h.tokens ▸ hk), h.tokens, List.getElem?_eq_getElem hk]
  rfl

/-- The lexical rules of shuffled declarations; tokens keep their numbers. -/
theorem Shuffled.exists_buildLexical (h : d.Shuffled d') {lexical : LexicalNetwork}
    (hl : d.buildLexical = .ok lexical) : ∃ lexical' f S, d'.buildLexical = .ok lexical' ∧
      lexical.Renumbers f S lexical' ∧ ∀ k < d.tokens.length, f k = k := by
  simp only [except_bind_eq_ok, buildLexical] at hl
  obtain ⟨_, htokens, _, hfragments, bodies, hbodies, hl⟩ := hl
  cases hl
  obtain ⟨hnt, -⟩ := nodup_of_checkDistinct htokens
  obtain ⟨hnf, hdisjoint⟩ := nodup_of_checkDistinct hfragments
  have hn : d.lexicalNames.Nodup :=
    List.nodup_append.2 ⟨hnt, hnf, fun x hx y hy hxy => hdisjoint y hy (hxy ▸ hx)⟩
  obtain ⟨f, hinj, hf⟩ := exists_renumbering h.perm_lexicalBodies
  have hfn : ∀ i : Nat, d'.lexicalNames[f i]? = d.lexicalNames[i]? := by
    intro i
    rw [← map_lexicalBodies, ← map_lexicalBodies, List.getElem?_map, List.getElem?_map, hf]
  obtain ⟨bodies', hbodies', hreorders⟩ := exists_reorders hbodies h.perm_lexicalBodies d.map_lexicalBodies
    d'.map_lexicalBodies hinj hf (resolveLexical_of_perm h.perm_lexicalNames hn hfn) all_of_resolveLexical
    all_of_resolveLexical
  have hpf := h.fragments.map (·.1)
  obtain ⟨_, hfragments'⟩ : ∃ u, checkDistinct .duplicateFragment (d'.tokens.map (·.name)) (d'.fragments.map (·.1)) =
      .ok u :=
    exists_checkDistinct_eq_ok_iff.2
      ⟨hpf.nodup hnf, fun name hname => h.tokens ▸ hdisjoint name (hpf.mem_iff.2 hname)⟩
  refine ⟨_, f, _, ?_, hreorders.renumbers, fun k hk => h.apply_token hn hfn hk⟩
  simp only [except_bind_eq_ok, buildLexical]
  exact ⟨_, h.tokens ▸ htokens, _, hfragments', bodies', hbodies', rfl⟩

/-! ### Phrase rules -/

theorem resolvePhrase_of_perm {tokens names names' : List String} {f : RuleId → RuleId} (hp : names.Perm names')
    (hn : names.Nodup) (hf : ∀ i : Nat, names'[f i]? = names[i]?) (owner : String) (p : PhrasePattern) :
    resolvePhrase tokens names' owner p = (resolvePhrase tokens names owner p).map (Pattern.mapRefs f) := by
  unfold resolvePhrase
  simp only [number_of_perm hp hn hf, Pattern.resolve_mapRefs]
  cases Pattern.resolve _ _ _ with
  | error e => rfl
  | ok q => exact congrArg Except.ok (q.mergeSymbols_mapRefs f)

theorem all_of_resolvePhrase {tokens rules : List String} {owner : String} {p : PhrasePattern}
    {q : ResolvedPattern TokenKind (List TokenKind)} (h : resolvePhrase tokens rules owner p = .ok q) :
    q.All (fun _ => True) (· < rules.length) := by
  simp only [resolvePhrase, except_bind_eq_ok] at h
  obtain ⟨r, hr, hmerge⟩ := h
  cases hmerge
  exact Pattern.all_mergeSymbols (fun _ _ => trivial) r (Pattern.all_of_resolve (fun _ => trivial) lt_of_number _ hr)

/-- The phrase rules of shuffled declarations. -/
theorem Shuffled.exists_buildPhrase (h : d.Shuffled d') {phrase : PhraseNetwork} (hb : d.buildPhrase = .ok phrase) :
    ∃ phrase' f S, d'.buildPhrase = .ok phrase' ∧ phrase.Renumbers f S phrase' ∧
      ∀ error name, number (d'.rules.map (·.1)) error name = (number (d.rules.map (·.1)) error name).map f := by
  simp only [except_bind_eq_ok, buildPhrase] at hb
  obtain ⟨_, hrules, bodies, hbodies, hb⟩ := hb
  cases hb
  obtain ⟨hn, -⟩ := nodup_of_checkDistinct hrules
  have hpn := h.rules.map (·.1)
  obtain ⟨f, hinj, hf⟩ := exists_renumbering h.rules
  have hfn : ∀ i : Nat, (d'.rules.map (·.1))[f i]? = (d.rules.map (·.1))[i]? := by
    intro i
    rw [List.getElem?_map, List.getElem?_map, hf]
  rw [← h.tokens] at hbodies
  obtain ⟨bodies', hbodies', hreorders⟩ := exists_reorders hbodies h.rules rfl rfl hinj hf
    (resolvePhrase_of_perm hpn hn hfn) all_of_resolvePhrase all_of_resolvePhrase
  obtain ⟨_, hrules'⟩ : ∃ u, checkDistinct .duplicateRule [] (d'.rules.map (·.1)) = .ok u :=
    exists_checkDistinct_eq_ok_iff.2 ⟨hpn.nodup hn, fun _ _ => List.not_mem_nil⟩
  refine ⟨_, f, _, ?_, hreorders.renumbers, number_of_perm hpn hn hfn⟩
  simp only [except_bind_eq_ok, buildPhrase]
  exact ⟨_, hrules', bodies', hbodies', rfl⟩

/-! ### Grammars -/

/-- Shuffled declarations are built, into a grammar that differs in the numbers of rules and states only. -/
theorem Shuffled.exists_build (h : d.Shuffled d') (hd : d.build = .ok g) :
    ∃ g', d'.build = .ok g' ∧ g.Renumbers g' := by
  rw [build_eq_bind] at hd
  simp only [except_bind_eq_ok] at hd
  obtain ⟨start, hstart, lexical, hl, phrase, hp, startRule, hnumber, tokens, htable, hd⟩ := hd
  cases hd
  obtain ⟨lexical', fl, Sl, hl', hlexical, hfix⟩ := h.exists_buildLexical hl
  obtain ⟨phrase', fp, Sp, hp', hphrase, hnumbers⟩ := h.exists_buildPhrase hp
  have hstart' : d'.designated = .ok start := by
    rw [designated_eq_ok_iff] at hstart ⊢
    rw [h.start, hstart]
  have hnumber' : number (d'.rules.map (·.1)) (.unknownStartRule start) start = .ok (fp startRule) := by
    rw [hnumbers, hnumber]
    rfl
  have hfix' : ∀ x ∈ d.tokens.zipIdx, fl x.2 = x.2 := fun x hx =>
    hfix x.2 (List.getElem?_eq_some_iff.1 (List.mem_zipIdx_iff_getElem?.1 hx)).1
  have htable' : tokenTable lexical' d'.tokens.zipIdx = .ok tokens := by
    rw [h.tokens, tokenTable_of_renumbers hlexical hfix', htable]
  refine ⟨⟨lexical', phrase', tokens.toArray, fp startRule⟩, ?_, rfl, ⟨fl, Sl, hlexical, ?_⟩, fp, Sp, hphrase, rfl⟩
  · rw [build_eq_bind]
    simp only [except_bind_eq_ok]
    exact ⟨start, hstart', lexical', hl', phrase', hp', _, hnumber', tokens, htable', rfl⟩
  · intro t ht
    rw [tokenTable_eq htable] at ht
    obtain ⟨x, hx, rfl⟩ := List.mem_map.1 (List.mem_toArray.1 ht)
    exact hfix' x hx

end Declarations

end Typeahead
