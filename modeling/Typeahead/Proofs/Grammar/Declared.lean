import Typeahead.Proofs.Grammar.Built
import Typeahead.Proofs.Grammar.LeftRecursion
import Typeahead.Proofs.Grammar.Realization

/-!
# Grammars as they are declared

The phrase rules and the lexical rules of some declarations are systems of rules just as they are written down
(`phraseSystem`, `lexicalSystem`): names stand for themselves, and left recursion is left recursion.  The networks of a
grammar built from the declarations realize these systems (`Built.phrase_reads`, `Built.lexical_reads`).
-/

namespace Typeahead

open RuleSystem

/-- The characters that a lexical atom stands for. -/
def LexAtom.Accepts : LexAtom → Char → Prop
  | .char c, x => x = c
  | .set s, x => s.contains x = true
  | .inClass body, x => ∃ rs, Text.classRanges body = .ok rs ∧ ∃ r ∈ rs, r.lo ≤ x ∧ x ≤ r.hi
  | .notInClass body, x => ∃ rs, Text.classRanges body = .ok rs ∧ ¬ ∃ r ∈ rs, r.lo ≤ x ∧ x ≤ r.hi

instance (a : LexAtom) (x : Char) : Decidable (a.Accepts x) :=
  match a with
  | .char c => inferInstanceAs (Decidable (x = c))
  | .set s => inferInstanceAs (Decidable (s.contains x = true))
  | .inClass body =>
    match h : Text.classRanges body with
    | .ok rs => decidable_of_iff (∃ r ∈ rs, r.lo ≤ x ∧ x ≤ r.hi) (by simp [LexAtom.Accepts, h])
    | .error _ => isFalse (by simp [LexAtom.Accepts, h])
  | .notInClass body =>
    match h : Text.classRanges body with
    | .ok rs => decidable_of_iff (¬ ∃ r ∈ rs, r.lo ≤ x ∧ x ≤ r.hi) (by simp [LexAtom.Accepts, h])
    | .error _ => isFalse (by simp [LexAtom.Accepts, h])

namespace Declarations

/-- The phrase rules as they are written: the name of a token stands for its kind, the name of a rule for the rule. -/
def phraseSystem (d : Declarations) : RuleSystem String String TokenKind where
  accepts name kind := (d.tokens.map (·.name))[kind]? = some name
  body? name := d.rules.lookup name

/-- The lexical rules as they are written: names stand for fragments or tokens. -/
def lexicalSystem (d : Declarations) : RuleSystem LexAtom String Char where
  accepts atom x := atom.Accepts x
  body? name := d.lexicalBodies.lookup name

instance (d : Declarations) (atom : LexAtom) (x : Char) : Decidable (d.lexicalSystem.accepts atom x) :=
  inferInstanceAs (Decidable (atom.Accepts x))

/-- The phrase rules with loops in place of left recursion. -/
def loopSystem (d : Declarations) : RuleSystem String String TokenKind where
  accepts name kind := (d.tokens.map (·.name))[kind]? = some name
  body? name := (d.rules.lookup name).map fun body => (body.withoutLeftRecursion? name).getD body

theorem turnsIntoLoops (d : Declarations) : TurnsIntoLoops d.phraseSystem d.loopSystem := by
  refine ⟨fun _ _ => Iff.rfl, fun name => ?_⟩
  show (d.rules.lookup name).map _ = d.rules.lookup name ∨ _
  cases hp : d.rules.lookup name with
  | none => exact Or.inl rfl
  | some p =>
    cases hq : p.withoutLeftRecursion? name with
    | none => exact Or.inl (by rw [Option.map_some, hq, Option.getD_none])
    | some q => exact Or.inr ⟨p, q, hp, hq, by simp [loopSystem, hp, hq]⟩

/-! ### Resolved bodies -/

section Bodies

variable {α σ τ : Type} {resolve : String → Pattern α String → Except GrammarError (ResolvedPattern σ τ)}
  {l : List (String × Pattern α String)} {ps : List (ResolvedPattern σ τ)}

theorem length_of_resolveBodies (h : resolveBodies resolve l = .ok ps) : (l.map (·.1)).length = ps.length := by
  rw [List.length_map]
  exact (forall₂_of_resolveBodies h).length_eq

/-- The bodies are resolved one by one. -/
theorem exists_resolved (h : resolveBodies resolve l = .ok ps) {i : Nat} {name : String} {p : Pattern α String}
    (hi : l[i]? = some (name, p)) : ∃ q, ps[i]? = some q ∧ resolve name p = .ok q := by
  obtain ⟨hlt, hp⟩ := List.getElem?_eq_some_iff.1 hi
  have hres := forall₂_of_resolveBodies h
  have hlt' : i < ps.length := hres.length_eq ▸ hlt
  have hget := hres.get hlt hlt'
  rw [List.get_eq_getElem, List.get_eq_getElem, hp] at hget
  exact ⟨ps[i], List.getElem?_eq_getElem hlt', hget⟩

/-- The body of a rule, found by the name of the rule and, resolved, by its number. -/
theorem exists_body_of_resolveBodies (h : resolveBodies resolve l = .ok ps) (hn : (l.map (·.1)).Nodup) {name : String}
    {i : Nat} (hi : (l.map (·.1))[i]? = some name) :
    ∃ p q, l.lookup name = some p ∧ ps[i]? = some q ∧ resolve name p = .ok q := by
  rw [List.getElem?_map, Option.map_eq_some_iff] at hi
  obtain ⟨⟨name, p⟩, hi, rfl⟩ := hi
  obtain ⟨q, hq, hres⟩ := exists_resolved h hi
  exact ⟨p, q, lookup_of_mem hn (List.mem_of_getElem? hi), hq, hres⟩

end Bodies

theorem number_eq_ok_iff_getElem? {names : List String} (h : names.Nodup) {error : GrammarError} {name : String}
    {i : Nat} : number names error name = .ok i ↔ names[i]? = some name := by
  rw [number_eq_ok_iff]
  refine ⟨getElem?_of_idxOf?, fun hi => ?_⟩
  cases hj : names.idxOf? name with
  | none => exact absurd (List.mem_of_getElem? hi) (List.idxOf?_eq_none_iff.1 hj)
  | some j => rw [eq_of_getElem? h hi (getElem?_of_idxOf? hj)]

variable {d : Declarations} {g : Grammar}

/-! ### The lexical network -/

theorem accepts_iff_of_lexicalLabel {a : LexAtom} {label : Label Char Text.CharSet}
    (h : lexicalLabel a = .ok label) (x : Char) : a.Accepts x ↔ label.accepts x = true := by
  have hclass : ∀ {body rs}, readClass body = .ok rs → Text.classRanges body = .ok rs := by
    intro body rs h
    unfold readClass at h
    split at h
    · cases h
      assumption
    · cases h
  cases a with
  | char c =>
    cases h
    simp [LexAtom.Accepts, Label.accepts, eq_comm]
  | set s =>
    cases h
    rfl
  | inClass body =>
    obtain ⟨rs, hrs, rfl⟩ := except_map_eq_ok.1 h
    simp [LexAtom.Accepts, Label.accepts, SymbolSet.contains, Text.CharSet.contains, Text.CharRange.contains,
      hclass hrs]
  | notInClass body =>
    obtain ⟨rs, hrs, rfl⟩ := except_map_eq_ok.1 h
    simp [LexAtom.Accepts, Label.accepts, SymbolSet.contains, Text.CharSet.contains, Text.CharRange.contains,
      hclass hrs]

private theorem resolves_lexical (hn : d.lexicalNames.Nodup) {bodies : List (ResolvedPattern Char Text.CharSet)}
    (h : resolveBodies (resolveLexical d.lexicalNames) d.lexicalBodies = .ok bodies) :
    Pattern.Resolves d.lexicalSystem (ofBodies bodies) (fun _ => lexicalLabel)
      (fun owner name => number d.lexicalNames (.undefinedFragment owner name) name) := by
  refine ⟨fun hb x => accepts_iff_of_lexicalLabel hb x, ?_⟩
  intro owner name i hi
  have hname := (number_eq_ok_iff_getElem? hn).1 hi
  rw [← map_lexicalBodies] at hname hn
  obtain ⟨p, q, hp, hq, hres⟩ := exists_body_of_resolveBodies h hn hname
  exact ⟨p, q, name, hp, hq, hres⟩

/-- From the start of a lexical rule the lexical network reads what the rule, as written, yields; where it finishes, it
is still in this rule. -/
theorem Built.lexical_reads (h : Built d g) {rule : Nat} {name : String} (hr : d.lexicalNames[rule]? = some name) :
    g.lexical.start? rule = some (2 * rule) ∧ ∀ w,
      ((∃ c, g.lexical.Reads (.initial (2 * rule)) w c) ↔ d.lexicalSystem.Viable [.ref name] w) ∧
      ((∃ m c, g.lexical.Reads (.initial (2 * rule)) w m ∧ g.lexical.Reaches m c ∧ g.lexical.CanConsume c.state) ↔
        d.lexicalSystem.Live [.ref name] w) ∧
      ((∃ m c, g.lexical.Reads (.initial (2 * rule)) w m ∧ g.lexical.Reaches m c ∧ g.lexical.CanFinish c) ↔
        d.lexicalSystem.Derives [.ref name] w) ∧
      ∀ m c, g.lexical.Reads (.initial (2 * rule)) w m → g.lexical.Reaches m c → g.lexical.CanFinish c →
        g.lexical.owner? c.state = some rule := by
  obtain ⟨bodies, hres, hnet⟩ := h.lexical
  have hlen := length_of_resolveBodies hres
  rw [map_lexicalBodies] at hlen
  have hstart : g.lexical.start? rule = some (2 * rule) := by
    rw [hnet, Network.start?_layOutBodies hlen, if_pos (List.getElem?_eq_some_iff.1 hr).1]
  have hreal : g.lexical.Realizes (ofBodies bodies) := hnet ▸ Network.realizes_layOutBodies hlen
  have hR := resolves_lexical h.nodup_lexical hres
  have href : Pattern.ResolvesFor (fun _ => lexicalLabel)
      (fun owner name => number d.lexicalNames (.undefinedFragment owner name) name) (.ref name) (.ref rule) :=
    Pattern.resolvesFor_ref name ((number_eq_ok_iff_getElem? h.nodup_lexical).2 hr)
  refine ⟨hstart, fun w => ⟨?_, ?_, ?_, fun m c => hreal.owner? hstart⟩⟩
  · rw [hreal.reads_iff hstart]
    exact ⟨hR.simulates_back.viable href, hR.simulates.viable href⟩
  · rw [hreal.consumes_iff hstart]
    exact ⟨hR.simulates_back.live href, hR.simulates.live href⟩
  · rw [hreal.finishes_iff hstart]
    exact ⟨hR.simulates_back.derives href, hR.simulates.derives href⟩

/-! ### The phrase network -/

/-- The bodies of the phrase rules before alternatives are merged. -/
private theorem exists_unmerged {tokens rules : List String} {l : List (String × PhrasePattern)}
    {bodies : List (ResolvedPattern TokenKind (List TokenKind))}
    (h : resolveBodies (resolvePhrase tokens rules) l = .ok bodies) :
    ∃ ps, bodies = ps.map Pattern.mergeSymbols ∧ resolveBodies (fun owner body =>
      ((body.withoutLeftRecursion? owner).getD body).resolve
        (fun name => (number tokens (.undefinedToken owner name) name).map .symbol)
        (fun name => number rules (.undefinedRule owner name) name)) l = .ok ps := by
  induction l generalizing bodies with
  | nil =>
    cases h
    exact ⟨[], rfl, rfl⟩
  | cons nb l ih =>
    simp only [resolveBodies, resolvePhrase, except_bind_eq_ok] at h
    obtain ⟨_, ⟨p, hp, hm⟩, qs, hqs, h⟩ := h
    cases h
    cases hm
    obtain ⟨ps, rfl, hps⟩ := ih hqs
    refine ⟨p :: ps, rfl, ?_⟩
    simp only [resolveBodies, except_bind_eq_ok]
    exact ⟨p, hp, ps, hps, rfl⟩

private theorem resolves_phrase (h : Built d g) {ps : List (ResolvedPattern TokenKind (List TokenKind))}
    (hres : resolveBodies (fun owner body =>
      ((body.withoutLeftRecursion? owner).getD body).resolve
        (fun name => (number (d.tokens.map (·.name)) (.undefinedToken owner name) name).map .symbol)
        (fun name => number (d.rules.map (·.1)) (.undefinedRule owner name) name)) d.rules = .ok ps) :
    Pattern.Resolves d.loopSystem (ofBodies ps)
      (fun owner name => (number (d.tokens.map (·.name)) (.undefinedToken owner name) name).map .symbol)
      (fun owner name => number (d.rules.map (·.1)) (.undefinedRule owner name) name) := by
  refine ⟨?_, ?_⟩
  · intro owner name label hl x
    obtain ⟨kind, hk, rfl⟩ := except_map_eq_ok.1 hl
    have hname := (number_eq_ok_iff_getElem? h.nodup_tokens).1 hk
    show (d.tokens.map (·.name))[x]? = some name ↔ decide (kind = x) = true
    rw [decide_eq_true_eq]
    refine ⟨fun hx => eq_of_getElem? h.nodup_tokens hname hx, ?_⟩
    rintro rfl
    exact hname
  · intro owner name i hi
    have hname := (number_eq_ok_iff_getElem? h.nodup_rules).1 hi
    obtain ⟨p, q, hp, hq, hres⟩ := exists_body_of_resolveBodies hres h.nodup_rules hname
    exact ⟨_, q, name, by simp [loopSystem, hp], hq, hres⟩

/-- From the start of a phrase rule the phrase network reads what the rule, as written, yields. -/
theorem Built.phrase_reads (h : Built d g) {rule : Nat} {name : String} (hr : (d.rules.map (·.1))[rule]? = some name) :
    g.phrase.start? rule = some (2 * rule) ∧ ∀ w,
      ((∃ c, g.phrase.Reads (.initial (2 * rule)) w c) ↔ d.phraseSystem.Viable [.ref name] w) ∧
      ((∃ m c, g.phrase.Reads (.initial (2 * rule)) w m ∧ g.phrase.Reaches m c ∧ g.phrase.CanFinish c) ↔
        d.phraseSystem.Derives [.ref name] w) := by
  obtain ⟨bodies, hres, hnet⟩ := h.phrase
  have hlen := length_of_resolveBodies hres
  have hstart : g.phrase.start? rule = some (2 * rule) := by
    rw [hnet, Network.start?_layOutBodies hlen, if_pos (List.getElem?_eq_some_iff.1 hr).1]
  have hreal : g.phrase.Realizes (ofBodies bodies) := hnet ▸ Network.realizes_layOutBodies hlen
  obtain ⟨ps, rfl, hps⟩ := exists_unmerged hres
  have hR := resolves_phrase h hps
  have href : Pattern.ResolvesFor
      (fun owner name => (number (d.tokens.map (·.name)) (.undefinedToken owner name) name).map .symbol)
      (fun owner name => number (d.rules.map (·.1)) (.undefinedRule owner name) name)
      (.ref name) (.ref rule : ResolvedPattern TokenKind (List TokenKind)) :=
    Pattern.resolvesFor_ref name ((number_eq_ok_iff_getElem? h.nodup_rules).2 hr)
  have hmerge : Pattern.MergesTo (.ref rule) (.ref rule) := Or.inl rfl
  refine ⟨hstart, fun w => ⟨?_, ?_⟩⟩
  · rw [hreal.reads_iff hstart, ← d.turnsIntoLoops.viable_iff]
    constructor
    · exact fun hw => hR.simulates_back.viable href (Pattern.simulates_mergeSymbols_back.viable rfl hw)
    · exact fun hw => Pattern.simulates_mergeSymbols.viable hmerge (hR.simulates.viable href hw)
  · rw [hreal.finishes_iff hstart, ← d.turnsIntoLoops.derives_iff]
    constructor
    · exact fun hw => hR.simulates_back.derives href (Pattern.simulates_mergeSymbols_back.derives rfl hw)
    · exact fun hw => Pattern.simulates_mergeSymbols.derives hmerge (hR.simulates.derives href hw)

/-- If a rule left-calls another one in the phrase network, its body, with loops in place of left recursion, begins with
a reference to the other one. -/
theorem Built.begins_of_leftCalls (h : Built d g) {caller callee : Nat} (hl : g.phrase.LeftCalls caller callee) :
    ∃ name body name', (d.rules.map (·.1))[caller]? = some name ∧ d.loopSystem.body? name = some body ∧
      (d.rules.map (·.1))[callee]? = some name' ∧ d.loopSystem.Begins [body] name' := by
  obtain ⟨bodies, hres, hnet⟩ := h.phrase
  have hlen := length_of_resolveBodies hres
  rw [hnet] at hl
  obtain ⟨q, hq, hbegins⟩ := Network.begins_of_leftCalls hlen hl
  obtain ⟨ps, rfl, hps⟩ := exists_unmerged hres
  rw [List.getElem?_map, Option.map_eq_some_iff] at hq
  obtain ⟨q, hq, rfl⟩ := hq
  -- the name and the body of the caller
  have hlt : caller < (d.rules.map (·.1)).length := by
    rw [hlen, List.length_map]
    exact (List.getElem?_eq_some_iff.1 hq).1
  obtain ⟨name, hname⟩ : ∃ name, (d.rules.map (·.1))[caller]? = some name := ⟨_, List.getElem?_eq_getElem hlt⟩
  obtain ⟨p, q', hp, hq', hresolve⟩ := exists_body_of_resolveBodies hps h.nodup_rules hname
  cases hq.symm.trans hq'
  -- back from the merged body to the resolved one, and from there to the names
  obtain ⟨_, rfl, hbegins⟩ := Pattern.simulates_mergeSymbols_back.exists_begins (B := Eq)
    (fun r q hr => ⟨r, Pattern.eq_ref_of_mergeSymbols hr, rfl⟩) rfl hbegins
  obtain ⟨name', ⟨owner, hname'⟩, hbegins⟩ := (resolves_phrase h hps).simulates_back.exists_begins
    (fun _ _ hr => hr.exists_ref) ⟨_, hresolve⟩ hbegins
  have hcallee := (number_eq_ok_iff_getElem? h.nodup_rules).1 hname'
  exact ⟨name, _, name', hname, by simp [loopSystem, hp], hcallee, hbegins⟩

/-- If no phrase rule, with loops in place of left recursion, begins with itself, then no rule left-calls itself in the
phrase network. -/
theorem Built.noLeftCycle_phrase (h : Built d g)
    (hself : ∀ name body, d.loopSystem.body? name = some body → ¬ d.loopSystem.Begins [body] name) :
    g.phrase.NoLeftCycle := by
  have hchain : ∀ {caller callee : Nat}, Relation.TransGen g.phrase.LeftCalls caller callee →
      ∃ name body name', (d.rules.map (·.1))[caller]? = some name ∧ d.loopSystem.body? name = some body ∧
        (d.rules.map (·.1))[callee]? = some name' ∧ d.loopSystem.Begins [body] name' := by
    intro caller callee hc
    induction hc with
    | single hl => exact h.begins_of_leftCalls hl
    | tail _ hl ih =>
      obtain ⟨name, body, name', hcaller, hbody, hname', hbegins⟩ := ih
      obtain ⟨name₂, body₂, name'', hname₂, hbody₂, hcallee, hbegins₂⟩ := h.begins_of_leftCalls hl
      cases hname'.symm.trans hname₂
      have href : d.loopSystem.Begins [.ref name'] name'' := begins_ref_iff.2 (Or.inr ⟨body₂, hbody₂, hbegins₂⟩)
      exact ⟨name, body, name'', hcaller, hbody, hcallee, hbegins.trans href⟩
  intro rule hc
  obtain ⟨name, body, name', hname, hbody, hname', hbegins⟩ := hchain hc
  cases hname.symm.trans hname'
  exact hself name body hbody hbegins

end Declarations

end Typeahead
