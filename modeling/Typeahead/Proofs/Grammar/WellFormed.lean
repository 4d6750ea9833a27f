import Mathlib
import Typeahead.Proofs.Grammar.Buildable
import Typeahead.Proofs.Grammar.Leaves
import Typeahead.Proofs.Network.EmptyRuns

/-!
# Well-formed declarations

What declarations must satisfy is a list of conditions (`Condition.inOrder`), each said of the declarations as they are
written (`Holds`).  Building settles them one after the other: it succeeds exactly if all hold, and otherwise reports
the first that does not (`build_reports_first_fault`).  Only the last condition needs a search, and that search may
prune calls: a token that can be left without consuming a character can be left without opening any rule within itself
(`Network.acceptsEnd_closure_initial_iff`), so pruning hides no token that derives the empty word.
-/

namespace Typeahead

/-- If the atom is a class, its body can be read. -/
def LexAtom.Readable : LexAtom → Prop
  | .inClass body | .notInClass body => ∃ rs, Text.classRanges body = .ok rs
  | .char _ | .set _ => True

namespace Declarations

variable {A B : Type} {d : Declarations}

/-! ### Conditions -/

/-- What declarations must satisfy. -/
inductive Condition where
  | startDesignated
  | tokensDistinct
  | fragmentsDistinct
  | lexicalBodiesResolve
  | rulesDistinct
  | phraseBodiesResolve
  | startKnown
  | tokensNonempty
  deriving Repr, DecidableEq

/-- The conditions in the order in which they are looked at. -/
def Condition.inOrder : List Condition :=
  [.startDesignated, .tokensDistinct, .fragmentsDistinct, .lexicalBodiesResolve, .rulesDistinct, .phraseBodiesResolve,
    .startKnown, .tokensNonempty]

theorem Condition.mem_inOrder (c : Condition) : c ∈ inOrder := by
  cases c <;> decide

/-- The token derives the empty word. -/
def Nullable (d : Declarations) (t : TokenDecl) : Prop := d.lexicalSystem.Derives [t.body] []

/-- The declarations satisfy a condition.  Bodies are taken as they are written. -/
def Holds (d : Declarations) : Condition → Prop
  | .startDesignated => ∃ name, d.start = some name
  | .tokensDistinct => (d.tokens.map (·.name)).Nodup
  | .fragmentsDistinct =>
    (d.fragments.map (·.1)).Nodup ∧ ∀ name ∈ d.fragments.map (·.1), name ∉ d.tokens.map (·.name)
  | .lexicalBodiesResolve => ∀ b ∈ d.lexicalBodies,
    (∀ a, .inl a ∈ b.2.leaves → a.Readable) ∧ ∀ name, .inr name ∈ b.2.leaves → name ∈ d.lexicalNames
  | .rulesDistinct => (d.rules.map (·.1)).Nodup
  | .phraseBodiesResolve => ∀ b ∈ d.rules,
    (∀ name, .inl name ∈ b.2.leaves → name ∈ d.tokens.map (·.name)) ∧
      ∀ name, .inr name ∈ b.2.leaves → name ∈ d.rules.map (·.1)
  | .startKnown => ∀ name, d.start = some name → name ∈ d.rules.map (·.1)
  | .tokensNonempty => ∀ t ∈ d.tokens, ¬ d.Nullable t

/-! ### Faults -/

/-- `name` is the first in the list that is taken or has come before. -/
def FirstRepeated (taken names : List String) (name : String) : Prop :=
  ∃ before after, names = before ++ name :: after ∧ (name ∈ taken ∨ name ∈ before) ∧
    before.Nodup ∧ ∀ other ∈ before, other ∉ taken

/-- What is wrong with a leaf of the lexical rule `owner`. -/
def lexicalFault? (d : Declarations) (owner : String) : LexAtom ⊕ String → Option GrammarError
  | .inl (.char _) | .inl (.set _) => none
  | .inl (.inClass body) | .inl (.notInClass body) =>
    match Text.classRanges body with
    | .ok _ => none
    | .error cause => some (.invalidClass body cause)
  | .inr name => if name ∈ d.lexicalNames then none else some (.undefinedFragment owner name)

/-- What is wrong with a leaf of the phrase rule `owner`. -/
def phraseFault? (d : Declarations) (owner : String) : String ⊕ String → Option GrammarError
  | .inl name => if name ∈ d.tokens.map (·.name) then none else some (.undefinedToken owner name)
  | .inr name => if name ∈ d.rules.map (·.1) then none else some (.undefinedRule owner name)

/-- The error that tells how a condition is violated.  Of several violations it tells the first: the first repeated
name, the leftmost leaf of the first body (phrase bodies as they are compiled, left recursion being a loop), the first
token that derives the empty word. -/
def Reports (d : Declarations) (e : GrammarError) : Condition → Prop
  | .startDesignated => e = .missingStartRule
  | .tokensDistinct => ∃ name, FirstRepeated [] (d.tokens.map (·.name)) name ∧ e = .duplicateToken name
  | .fragmentsDistinct =>
    ∃ name, FirstRepeated (d.tokens.map (·.name)) (d.fragments.map (·.1)) name ∧ e = .duplicateFragment name
  | .lexicalBodiesResolve => d.lexicalBodies.findSome? (fun b => b.2.leaves.findSome? (d.lexicalFault? b.1)) = some e
  | .rulesDistinct => ∃ name, FirstRepeated [] (d.rules.map (·.1)) name ∧ e = .duplicateRule name
  | .phraseBodiesResolve => d.rules.findSome? (fun b =>
    ((b.2.withoutLeftRecursion? b.1).getD b.2).leaves.findSome? (d.phraseFault? b.1)) = some e
  | .startKnown => ∃ name, d.start = some name ∧ e = .unknownStartRule name
  | .tokensNonempty => ∃ before t after, d.tokens = before ++ t :: after ∧ d.Nullable t ∧
    (∀ other ∈ before, ¬ d.Nullable other) ∧ e = .emptyToken t.name

/-- The error tells how the first of the conditions that does not hold is violated. -/
def FirstFault (d : Declarations) (e : GrammarError) : List Condition → Prop
  | [] => False
  | c :: cs => (¬ d.Holds c ∧ d.Reports e c) ∨ (d.Holds c ∧ d.FirstFault e cs)

/-! ### Steps that settle conditions -/

/-- A step succeeds exactly if the conditions hold, and otherwise reports the first that does not. -/
structure Settles (d : Declarations) (cs : List Condition) (x : Except GrammarError A) : Prop where
  succeeds_iff : (∃ a, x = .ok a) ↔ ∀ c ∈ cs, d.Holds c
  fails_iff : ∀ e, x = .error e ↔ d.FirstFault e cs

theorem firstFault_append {e : GrammarError} {cs cs' : List Condition} :
    d.FirstFault e (cs ++ cs') ↔ d.FirstFault e cs ∨ ((∀ c ∈ cs, d.Holds c) ∧ d.FirstFault e cs') := by
  induction cs with
  | nil => simp [FirstFault]
  | cons c cs ih =>
    rw [List.cons_append, FirstFault, FirstFault, ih, List.forall_mem_cons]
    tauto

variable {c : Condition} {cs cs' : List Condition} {x : Except GrammarError A}

theorem settles_pure (a : A) : d.Settles [] (pure a : Except GrammarError A) :=
  ⟨⟨fun _ _ hc => (List.not_mem_nil hc).elim, fun _ => ⟨a, rfl⟩⟩, fun _ => ⟨nofun, False.elim⟩⟩

theorem settles_singleton (hok : (∃ a, x = .ok a) ↔ d.Holds c) (he : ¬ d.Holds c → ∀ e, x = .error e ↔ d.Reports e c) :
    d.Settles [c] x := by
  refine ⟨by rw [hok, List.forall_mem_singleton], fun e => ?_⟩
  have hfault : d.FirstFault e [c] ↔ ¬ d.Holds c ∧ d.Reports e c := by simp [FirstFault]
  rw [hfault]
  constructor
  · intro hx
    have hc : ¬ d.Holds c := fun hc => by
      obtain ⟨a, ha⟩ := hok.2 hc
      cases hx.symm.trans ha
    exact ⟨hc, (he hc e).1 hx⟩
  · exact fun ⟨hc, hr⟩ => (he hc e).2 hr

/-- Steps in a row settle their conditions in this order; each may rely on the success of those before. -/
theorem Settles.bind {f : A → Except GrammarError B} (hx : d.Settles cs x) (hf : ∀ a, x = .ok a → d.Settles cs' (f a)) :
    d.Settles (cs ++ cs') (x >>= f) := by
  cases x with
  | error e =>
    have hfault := (hx.fails_iff e).1 rfl
    have hnot : ¬ ∀ c ∈ cs, d.Holds c := fun h => by
      obtain ⟨a, ha⟩ := hx.succeeds_iff.2 h
      cases ha
    refine ⟨⟨?_, fun h => (hnot fun c hc => h c (List.mem_append_left _ hc)).elim⟩, fun e' => ?_⟩
    · rintro ⟨b, hb⟩
      cases hb
    · rw [firstFault_append, ← hx.fails_iff e']
      constructor
      · intro h
        cases h
        exact Or.inl rfl
      · rintro (h | ⟨h, -⟩)
        · cases h
          rfl
        · exact (hnot h).elim
  | ok a =>
    have hcs : ∀ c ∈ cs, d.Holds c := hx.succeeds_iff.1 ⟨a, rfl⟩
    have hnot : ∀ e, ¬ d.FirstFault e cs := fun e h => by cases (hx.fails_iff e).2 h
    have hrest := hf a rfl
    refine ⟨?_, fun e => ?_⟩
    · rw [List.forall_mem_append]
      exact hrest.succeeds_iff.trans ⟨fun h => ⟨hcs, h⟩, And.right⟩
    · rw [firstFault_append]
      exact (hrest.fails_iff e).trans ⟨fun h => Or.inr ⟨hcs, h⟩, fun h => (h.resolve_left (hnot e)).2⟩

/-! ### Names -/

theorem exists_checkDistinct_eq_ok_iff {error : String → GrammarError} {taken names : List String} :
    (∃ u, checkDistinct error taken names = .ok u) ↔ names.Nodup ∧ ∀ name ∈ names, name ∉ taken := by
  refine ⟨fun ⟨u, h⟩ => nodup_of_checkDistinct h, fun h => ⟨(), ?_⟩⟩
  induction names generalizing taken with
  | nil => rfl
  | cons name names ih =>
    obtain ⟨hname, hnodup⟩ := List.nodup_cons.1 h.1
    obtain ⟨htaken, hnew⟩ := List.forall_mem_cons.1 h.2
    rw [checkDistinct, if_neg htaken]
    refine ih ⟨hnodup, fun other hother => ?_⟩
    rw [List.mem_cons, not_or]
    exact ⟨fun he => hname (he ▸ hother), hnew other hother⟩

/-- Once a name has been looked at it is taken. -/
theorem firstRepeated_cons {taken names : List String} {name x : String} (hname : name ∉ taken) :
    FirstRepeated taken (name :: names) x ↔ FirstRepeated (name :: taken) names x := by
  constructor
  · rintro ⟨before, after, hnames, hx, hnodup, hnew⟩
    cases before with
    | nil =>
      cases hnames
      exact (hx.elim hname List.not_mem_nil).elim
    | cons first before =>
      obtain ⟨rfl, rfl⟩ := List.cons.inj hnames
      obtain ⟨hfirst, hnodup⟩ := List.nodup_cons.1 hnodup
      obtain ⟨-, hnew⟩ := List.forall_mem_cons.1 hnew
      refine ⟨before, after, rfl, ?_, hnodup, fun other hother => ?_⟩
      · simp only [List.mem_cons] at hx ⊢
        tauto
      · rw [List.mem_cons, not_or]
        exact ⟨fun he => hfirst (he ▸ hother), hnew other hother⟩
  · rintro ⟨before, after, rfl, hx, hnodup, hnew⟩
    simp only [List.mem_cons, not_or] at hx hnew
    refine ⟨name :: before, after, rfl, ?_, List.nodup_cons.2 ⟨fun h => (hnew name h).1 rfl, hnodup⟩, ?_⟩
    · rw [List.mem_cons]
      tauto
    · exact List.forall_mem_cons.2 ⟨hname, fun other hother => (hnew other hother).2⟩

theorem checkDistinct_eq_error_iff {error : String → GrammarError} {taken names : List String} {e : GrammarError} :
    checkDistinct error taken names = .error e ↔ ∃ name, FirstRepeated taken names name ∧ e = error name := by
  induction names generalizing taken with
  | nil => simp [checkDistinct, FirstRepeated]
  | cons name names ih =>
    rw [checkDistinct]
    split
    · rename_i htaken
      constructor
      · intro h
        cases h
        exact ⟨name, ⟨[], names, rfl, Or.inl htaken, .nil, by simp⟩, rfl⟩
      · rintro ⟨x, ⟨before, after, hnames, -, -, hnew⟩, rfl⟩
        cases before with
        | nil =>
          cases hnames
          rfl
        | cons first before =>
          obtain ⟨rfl, -⟩ := List.cons.inj hnames
          exact (hnew name (List.mem_cons_self ..) htaken).elim
    · rename_i htaken
      rw [ih]
      simp only [firstRepeated_cons htaken]

theorem settles_checkDistinct {error : String → GrammarError} {taken names : List String}
    (hc : d.Holds c ↔ names.Nodup ∧ ∀ name ∈ names, name ∉ taken)
    (he : ∀ e, d.Reports e c ↔ ∃ name, FirstRepeated taken names name ∧ e = error name) :
    d.Settles [c] (checkDistinct error taken names) :=
  settles_singleton (exists_checkDistinct_eq_ok_iff.trans hc.symm)
    fun _ e => checkDistinct_eq_error_iff.trans (he e).symm

theorem fault?_number {names : List String} {error : GrammarError} {name : String} :
    fault? (number names error name) = if name ∈ names then none else some error := by
  unfold number
  cases h : names.idxOf? name with
  | none => rw [if_neg (List.idxOf?_eq_none_iff.1 h), fault?]
  | some i =>
    rw [if_pos (List.mem_of_getElem? (getElem?_of_idxOf? h)), fault?]

/-! ### Bodies -/

theorem fault?_resolveBodies {α σ τ : Type}
    {resolve : String → Pattern α String → Except GrammarError (ResolvedPattern σ τ)}
    {l : List (String × Pattern α String)} :
    fault? (resolveBodies resolve l) = l.findSome? fun b => fault? (resolve b.1 b.2) := by
  induction l with
  | nil => rfl
  | cons b l ih =>
    rw [resolveBodies, fault?_both, ih, List.findSome?_cons]
    cases fault? (resolve b.1 b.2) <;> rfl

theorem fault?_lexicalLabel (owner : String) (a : LexAtom) :
    fault? (lexicalLabel a) = d.lexicalFault? owner (.inl a) := by
  cases a with
  | char c | set s => rfl
  | inClass body | notInClass body =>
    rw [lexicalLabel, fault?_map, readClass, lexicalFault?]
    cases Text.classRanges body <;> rfl

theorem fault?_resolveLexical (owner : String) (body : LexPattern) :
    fault? (resolveLexical d.lexicalNames owner body) = body.leaves.findSome? (d.lexicalFault? owner) := by
  rw [resolveLexical, Pattern.fault?_resolve]
  congr 1
  funext x
  cases x with
  | inl a => exact fault?_lexicalLabel owner a
  | inr name => exact fault?_number

theorem fault?_resolvePhrase (owner : String) (body : PhrasePattern) :
    fault? (resolvePhrase (d.tokens.map (·.name)) (d.rules.map (·.1)) owner body) =
      ((body.withoutLeftRecursion? owner).getD body).leaves.findSome? (d.phraseFault? owner) := by
  have hmerge : ∀ x : Except GrammarError (ResolvedPattern TokenKind (List TokenKind)),
      fault? (do let resolved ← x; pure resolved.mergeSymbols) = fault? x := fun x => by cases x <;> rfl
  rw [resolvePhrase, hmerge, Pattern.fault?_resolve]
  congr 1
  funext x
  cases x with
  | inl name => exact fault?_map.trans fault?_number
  | inr name => exact fault?_number

theorem lexicalFault?_eq_none_iff {owner : String} {x : LexAtom ⊕ String} : d.lexicalFault? owner x = none ↔
    (∀ a, x = .inl a → a.Readable) ∧ ∀ name, x = .inr name → name ∈ d.lexicalNames := by
  cases x with
  | inl a =>
    cases a with
    | char c | set s => simp [lexicalFault?, LexAtom.Readable]
    | inClass body | notInClass body => cases h : Text.classRanges body <;> simp [lexicalFault?, LexAtom.Readable, h]
  | inr name => simp [lexicalFault?]

theorem phraseFault?_eq_none_iff {owner : String} {x : String ⊕ String} : d.phraseFault? owner x = none ↔
    (∀ name, x = .inl name → name ∈ d.tokens.map (·.name)) ∧ ∀ name, x = .inr name → name ∈ d.rules.map (·.1) := by
  cases x <;> simp [phraseFault?]

/-- A step settles a condition if its fault is the one that is reported. -/
theorem settles_of_fault? {r : Option GrammarError} (hx : fault? x = r) (hok : r = none ↔ d.Holds c)
    (he : ∀ e, r = some e ↔ d.Reports e c) : d.Settles [c] x := by
  subst hx
  exact settles_singleton (fault?_eq_none_iff.symm.trans hok) fun _ e => fault?_eq_some_iff.symm.trans (he e)

theorem settles_lexicalBodies :
    d.Settles [.lexicalBodiesResolve] (resolveBodies (resolveLexical d.lexicalNames) d.lexicalBodies) := by
  refine settles_of_fault? fault?_resolveBodies ?_ fun e => ?_
  · simp only [fault?_resolveLexical, List.findSome?_eq_none_iff, lexicalFault?_eq_none_iff, Holds]
    exact forall₂_congr fun b _ => by aesop
  · simp only [fault?_resolveLexical]
    rfl

/-- Turning left recursion into a loop hides no fault and makes none: it drops references of a rule to itself only. -/
theorem forall_phraseFault?_compiled {owner : String} {body : PhrasePattern} (howner : owner ∈ d.rules.map (·.1)) :
    (∀ x ∈ ((body.withoutLeftRecursion? owner).getD body).leaves, d.phraseFault? owner x = none) ↔
      ∀ x ∈ body.leaves, d.phraseFault? owner x = none := by
  cases hq : body.withoutLeftRecursion? owner with
  | none => rfl
  | some q =>
    rw [Option.getD_some]
    constructor
    · intro h x hx
      rcases Pattern.mem_leaves_withoutLeftRecursion? hq hx with rfl | hx
      · exact if_pos howner
      · exact h x hx
    · exact fun h x hx => h x (Pattern.mem_leaves_of_withoutLeftRecursion? hq hx)

theorem settles_phraseBodies : d.Settles [.phraseBodiesResolve]
    (resolveBodies (resolvePhrase (d.tokens.map (·.name)) (d.rules.map (·.1))) d.rules) := by
  refine settles_of_fault? fault?_resolveBodies ?_ fun e => ?_
  · simp only [fault?_resolvePhrase, List.findSome?_eq_none_iff, Holds]
    refine forall₂_congr fun b hb => ?_
    rw [forall_phraseFault?_compiled (List.mem_map_of_mem hb)]
    simp only [phraseFault?_eq_none_iff]
    aesop
  · simp only [fault?_resolvePhrase]
    rfl

/-! ### Tokens that derive the empty word -/

/-- The search for the empty text among the words of a lexical rule. -/
def emptinessCheck (net : LexicalNetwork) (rule : RuleId) : Closure :=
  net.closure {} ((net.start? rule).toList.map .initial)

/-- The searches for the empty text, up to the first that finds it. -/
def checksAmong (net : LexicalNetwork) : List RuleId → List Closure
  | [] => []
  | rule :: rules =>
    emptinessCheck net rule :: if matchesEmpty net rule then [] else checksAmong net rules

/-- The searches for the empty text that building makes: none before both networks are built and the start rule is
known. -/
def emptinessChecks (d : Declarations) : List Closure :=
  match d.start, d.buildLexical, d.buildPhrase with
  | some start, .ok lexical, .ok _ =>
    if start ∈ d.rules.map (·.1) then checksAmong lexical (d.tokens.zipIdx.map (·.2)) else []
  | _, _, _ => []

/-- A search that is not cut short finds the empty text exactly if the token derives the empty word, whatever calls it
prunes. -/
theorem Built.matchesEmpty_iff {g : Grammar} (h : Built d g) {k : Nat} {t : TokenDecl} (hk : d.tokens[k]? = some t)
    (hb : (emptinessCheck g.lexical k).bound = none) : matchesEmpty g.lexical k = true ↔ d.Nullable t := by
  obtain ⟨hstart, hreads⟩ := h.token_reads hk
  unfold emptinessCheck at hb
  unfold matchesEmpty
  rw [hstart] at hb ⊢
  refine (Network.acceptsEnd_closure_initial_iff (by decide) hb).trans (Iff.trans ?_ (hreads []).2.2.1)
  constructor
  · rintro ⟨c, hc, hf⟩
    exact ⟨_, c, .nil _, hc, hf⟩
  · rintro ⟨m, c, hm, hc, hf⟩
    cases hm
    exact ⟨c, hc, hf⟩

section TokenTable

variable {net : LexicalNetwork} {l : List (TokenDecl × RuleId)}

theorem fault?_tokenTable : fault? (tokenTable net l) =
    l.findSome? fun x => if matchesEmpty net x.2 then some (.emptyToken x.1.name) else none := by
  induction l with
  | nil => rfl
  | cons x l ih =>
    obtain ⟨t, rule⟩ := x
    rw [tokenTable, List.findSome?_cons]
    by_cases hx : matchesEmpty net rule = true
    · rw [if_pos hx, if_pos hx]
      rfl
    · rw [if_neg hx, if_neg hx, fault?_map, ih]

theorem exists_tokenTable_eq_ok_iff :
    (∃ ts, tokenTable net l = .ok ts) ↔ ∀ x ∈ l, matchesEmpty net x.2 = false := by
  rw [← fault?_eq_none_iff, fault?_tokenTable, List.findSome?_eq_none_iff]
  simp

theorem tokenTable_eq_error_iff {e : GrammarError} :
    tokenTable net l = .error e ↔ ∃ before x after, l = before ++ x :: after ∧ matchesEmpty net x.2 = true ∧
      (∀ y ∈ before, matchesEmpty net y.2 = false) ∧ e = .emptyToken x.1.name := by
  rw [← fault?_eq_some_iff, fault?_tokenTable, List.findSome?_eq_some_iff]
  simp only [Option.ite_none_right_eq_some, Option.some.injEq, ite_eq_right_iff, reduceCtorEq, imp_false,
    Bool.not_eq_true]
  constructor
  · rintro ⟨before, x, after, hl, ⟨hx, he⟩, hbefore⟩
    exact ⟨before, x, after, hl, hx, hbefore, he.symm⟩
  · rintro ⟨before, x, after, hl, hx, hbefore, he⟩
    exact ⟨before, x, after, hl, ⟨hx, he.symm⟩, hbefore⟩

theorem mem_checksAmong {before after : List RuleId} {rule : RuleId}
    (h : ∀ other ∈ before, matchesEmpty net other = false) :
    emptinessCheck net rule ∈ checksAmong net (before ++ rule :: after) := by
  induction before with
  | nil => exact List.mem_cons_self ..
  | cons first before ih =>
    obtain ⟨hfirst, hbefore⟩ := List.forall_mem_cons.1 h
    rw [List.cons_append, checksAmong, if_neg (Bool.eq_false_iff.1 hfirst)]
    exact List.mem_cons_of_mem _ (ih hbefore)

end TokenTable

section Tokens

variable {g : Grammar}

/-- Among the first tokens, as long as none of them is found to match the empty text, none derives the empty word. -/
theorem Built.forall_matchesEmpty_iff (h : Built d g)
    (hc : ∀ check ∈ checksAmong g.lexical (d.tokens.zipIdx.map (·.2)), check.bound = none)
    {before after : List (TokenDecl × RuleId)} (hl : d.tokens.zipIdx = before ++ after) :
    (∀ x ∈ before, matchesEmpty g.lexical x.2 = false) ↔ ∀ x ∈ before, ¬ d.Nullable x.1 := by
  have hmem : ∀ x ∈ before, d.tokens[x.2]? = some x.1 := fun x hx =>
    List.mem_zipIdx_iff_getElem?.1 (hl ▸ List.mem_append_left _ hx)
  constructor
  · intro hempty x hx
    -- none of the searches before that for `x` ends the list of searches
    obtain ⟨first, rest, rfl⟩ := List.append_of_mem hx
    have hcheck : emptinessCheck g.lexical x.2 ∈ checksAmong g.lexical (d.tokens.zipIdx.map (·.2)) := by
      rw [hl, List.append_assoc, List.map_append, List.cons_append, List.map_cons]
      refine mem_checksAmong fun rule hrule => ?_
      obtain ⟨y, hy, rfl⟩ := List.mem_map.1 hrule
      exact hempty y (List.mem_append_left _ hy)
    rw [← h.matchesEmpty_iff (hmem x hx) (hc _ hcheck)]
    exact Bool.eq_false_iff.1 (hempty x hx)
  · intro hnull x hx
    exact Bool.eq_false_iff.2 fun hempty => hnull x hx (h.derives_nil_of_matchesEmpty (hmem x hx) hempty)

theorem Built.settles_tokenTable (h : Built d g)
    (hc : ∀ check ∈ checksAmong g.lexical (d.tokens.zipIdx.map (·.2)), check.bound = none) :
    d.Settles [.tokensNonempty] (tokenTable g.lexical d.tokens.zipIdx) := by
  refine settles_singleton ?_ fun _ e => ?_
  · rw [exists_tokenTable_eq_ok_iff, h.forall_matchesEmpty_iff hc (List.append_nil _).symm]
    show _ ↔ ∀ t ∈ d.tokens, ¬ d.Nullable t
    conv_rhs => rw [← List.zipIdx_map_fst 0 d.tokens, List.forall_mem_map]
  · rw [tokenTable_eq_error_iff]
    constructor
    · rintro ⟨before, x, after, hl, hx, hbefore, rfl⟩
      have hk : d.tokens[x.2]? = some x.1 := List.mem_zipIdx_iff_getElem?.1 (hl ▸ by simp)
      refine ⟨before.map (·.1), x.1, after.map (·.1), ?_, h.derives_nil_of_matchesEmpty hk hx, ?_, rfl⟩
      · rw [← List.zipIdx_map_fst 0 d.tokens, hl, List.map_append, List.map_cons]
      · exact List.forall_mem_map.2 ((h.forall_matchesEmpty_iff hc hl).1 hbefore)
    · rintro ⟨before, t, after, htokens, ht, hbefore, rfl⟩
      have hl : d.tokens.zipIdx = before.zipIdx ++ (t, before.length) :: after.zipIdx (before.length + 1) := by
        rw [htokens, List.zipIdx_append, List.zipIdx_cons, Nat.zero_add]
      have hempty := (h.forall_matchesEmpty_iff hc hl).2 fun x hx =>
        hbefore x.1 (List.mem_of_getElem? (List.mem_zipIdx_iff_getElem?.1 hx))
      have hcheck : emptinessCheck g.lexical before.length ∈ checksAmong g.lexical (d.tokens.zipIdx.map (·.2)) := by
        rw [hl, List.map_append, List.map_cons]
        exact mem_checksAmong (List.forall_mem_map.2 hempty)
      have hk : d.tokens[before.length]? = some t := by simp [htokens]
      exact ⟨before.zipIdx, (t, before.length), _, hl, (h.matchesEmpty_iff hk (hc _ hcheck)).2 ht, hempty, rfl⟩

end Tokens

/-! ### Building -/

theorem settles_buildLexical :
    d.Settles [.tokensDistinct, .fragmentsDistinct, .lexicalBodiesResolve] d.buildLexical := by
  unfold buildLexical
  have htokens : d.Settles [.tokensDistinct] (checkDistinct .duplicateToken [] (d.tokens.map (·.name))) :=
    settles_checkDistinct (by simp [Holds]) fun e => Iff.rfl
  have hfragments : d.Settles [.fragmentsDistinct]
      (checkDistinct .duplicateFragment (d.tokens.map (·.name)) (d.fragments.map (·.1))) :=
    settles_checkDistinct Iff.rfl fun e => Iff.rfl
  exact htokens.bind fun _ _ => hfragments.bind fun _ _ => settles_lexicalBodies.bind fun _ _ => settles_pure _

theorem settles_buildPhrase : d.Settles [.rulesDistinct, .phraseBodiesResolve] d.buildPhrase := by
  unfold buildPhrase
  have hrules : d.Settles [.rulesDistinct] (checkDistinct .duplicateRule [] (d.rules.map (·.1))) :=
    settles_checkDistinct (by simp [Holds]) fun e => Iff.rfl
  exact hrules.bind fun _ _ => settles_phraseBodies.bind fun _ _ => settles_pure _

theorem settles_startKnown {name : String} (hs : d.start = some name) :
    d.Settles [.startKnown] (number (d.rules.map (·.1)) (.unknownStartRule name) name) := by
  refine settles_singleton ?_ fun hc e => ?_
  · rw [← fault?_eq_none_iff, fault?_number]
    simp [Holds, hs]
  · have hname : name ∉ d.rules.map (·.1) := fun h => hc fun name' hs' => by
      cases hs.symm.trans hs'
      exact h
    rw [← fault?_eq_some_iff, fault?_number, if_neg hname]
    simp [Reports, hs, eq_comm]

/-- The start rule that has been designated. -/
def designated (d : Declarations) : Except GrammarError String :=
  match d.start with
  | none => .error .missingStartRule
  | some start => .ok start

theorem designated_eq_ok_iff {name : String} : d.designated = .ok name ↔ d.start = some name := by
  unfold designated
  split <;> simp_all

theorem settles_designated : d.Settles [.startDesignated] d.designated := by
  refine settles_singleton ?_ fun hc e => ?_
  · simp only [designated_eq_ok_iff, Holds]
  · have hs : d.start = none := Option.eq_none_iff_forall_ne_some.2 fun name hs => hc ⟨name, hs⟩
    simp [designated, hs, Reports, eq_comm]

theorem build_eq_bind : d.build = d.designated >>= fun start => d.buildLexical >>= fun lexical =>
    d.buildPhrase >>= fun phrase => number (d.rules.map (·.1)) (.unknownStartRule start) start >>= fun startRule =>
    tokenTable lexical d.tokens.zipIdx >>= fun tokens => pure ⟨lexical, phrase, tokens.toArray, startRule⟩ := by
  unfold build designated
  cases d.start <;> rfl

/-- Declarations are built into a grammar exactly if they satisfy all conditions, and otherwise the error tells the
first condition that they violate, provided that no search for the empty text is cut short. -/
theorem build_reports_first_fault (hc : ∀ check ∈ d.emptinessChecks, check.bound = none) :
    ((∃ g, d.build = .ok g) ↔ ∀ c, d.Holds c) ∧ ∀ e, d.build = .error e ↔ d.FirstFault e Condition.inOrder := by
  suffices h : d.Settles Condition.inOrder d.build from
    ⟨h.succeeds_iff.trans ⟨fun h c => h c c.mem_inOrder, fun h c _ => h c⟩, h.fails_iff⟩
  have htokens : ∀ {name lexical phrase startRule}, d.designated = .ok name → d.buildLexical = .ok lexical →
      d.buildPhrase = .ok phrase →
      number (d.rules.map (·.1)) (.unknownStartRule name) name = .ok startRule →
      d.Settles [.tokensNonempty] (tokenTable lexical d.tokens.zipIdx) := by
    intro name lexical phrase startRule hs hl hp hnumber
    rw [designated_eq_ok_iff] at hs
    have hrule := getElem?_of_idxOf? (number_eq_ok_iff.1 hnumber)
    -- the grammar that is built if no token derives the empty word
    let g : Grammar := ⟨lexical, phrase, (tokenEntries lexical d.tokens.zipIdx).toArray, startRule⟩
    have hg : Built d g := built_of_networks hl hp ⟨name, hs, hrule⟩ rfl
    refine hg.settles_tokenTable fun check hcheck => hc check ?_
    simpa only [emptinessChecks, hs, hl, hp, if_pos (List.mem_of_getElem? hrule)] using hcheck
  rw [build_eq_bind]
  exact settles_designated.bind fun _ hs => settles_buildLexical.bind fun _ hl => settles_buildPhrase.bind fun _ hp =>
    (settles_startKnown (designated_eq_ok_iff.1 hs)).bind fun _ hnumber =>
      (htokens hs hl hp hnumber).bind fun _ _ => settles_pure _

/-- Numbers in a row, with gaps that are described by a fragment that mentions itself and can be empty. -/
def gaps : Declarations where
  tokens := [⟨"NUM", .many1 (.inClass "0-9"), false⟩, ⟨"GAP", .ref "BLANKS", true⟩]
  fragments := [("BLANKS", .optional (.seq [.literal " ", .ref "BLANKS"]))]
  rules := [("row", .alt [.seq [.ref "row", .atom "NUM"], .atom "NUM"])]
  start := some "row"

/-- The gap is found to be empty through the fragment; all that is looked at before is as it should be. -/
theorem build_gaps : (∀ check ∈ gaps.emptinessChecks, check.bound = none) ∧
    gaps.build = .error (.emptyToken "GAP") ∧ gaps.FirstFault (.emptyToken "GAP") Condition.inOrder := by
  have hc : gaps.emptinessChecks.all (·.bound.isNone) = true := by cbv
  have hb : gaps.build = .error (.emptyToken "GAP") := by cbv
  have hchecks : ∀ check ∈ gaps.emptinessChecks, check.bound = none := fun check hcheck =>
    Option.isNone_iff_eq_none.1 (List.all_eq_true.1 hc check hcheck)
  exact ⟨hchecks, hb, ((build_reports_first_fault hchecks).2 _).1 hb⟩

end Declarations

end Typeahead
