import Mathlib
import Typeahead.Proofs.Completion.LongestMatch
import Typeahead.Proofs.Grammar.Walks

/-!
# Literal tokens

The spellings of a literal token are the canonical spellings of the texts that its lexical rule accepts, and a token is
patterned for good reasons only (`spellings_exact`).  A run through a rule that reads a text also tells how the text is
spelled (`Canonizes`); the walks of `Network.walk` are these runs, as long as each set of characters has a spelling.
-/

namespace Typeahead

/-- How a character is spelled that a label has consumed: a letter in either case is spelled as it was declared. -/
def Label.canonical : Label Char Text.CharSet → Char → Char
  | oneOf (.anyCase declared), _ => declared
  | _, x => x

/-- The place of a configuration on a walk. -/
def Configuration.place (c : Configuration) : WalkPosition := ⟨c.state, c.stack.map (·.follow)⟩

namespace Network

variable {net : LexicalNetwork} {rule : RuleId} {c c' m : Configuration} {u v : List Char}

/-! ### Canonical spellings -/

/-- Reading a text that is spelled canonically in a certain way. -/
inductive Canonizes (net : LexicalNetwork) : Configuration → List Char → List Char → Configuration → Prop where
  | nil (c : Configuration) : Canonizes net c [] [] c
  | cons {c c₁ c₂ : Configuration} {label : Label Char Text.CharSet} {target : StateId} {x : Char} {u v : List Char}
    (hm : net.Reaches c c₁) (h : .consume label target ∈ net.transitions c₁.state) (hx : label.accepts x = true)
    (hr : Canonizes net (c₁.movedTo target) u v c₂) : Canonizes net c (x :: u) (label.canonical x :: v) c₂

/-- The rule accepts the text `u`, and `v` is a canonical spelling of it. -/
def IsSpelling (net : LexicalNetwork) (rule : RuleId) (u v : List Char) : Prop :=
  ∃ start m c, net.start? rule = some start ∧ net.Canonizes (.initial start) u v m ∧ net.Reaches m c ∧ net.CanFinish c

/-- The canonical spellings of the texts that the rule accepts. -/
def canonicalSpellings (net : LexicalNetwork) (rule : RuleId) : Set String :=
  {s | ∃ u, net.IsSpelling rule u s.toList}

theorem exists_canonizes_iff : (∃ v, net.Canonizes c u v m) ↔ net.Reads c u m := by
  constructor
  · rintro ⟨v, h⟩
    induction h with
    | nil c => exact .nil c
    | cons hm h hx _ ih => exact .cons hm (.mk h hx) ih
  · intro h
    induction h with
    | nil c => exact ⟨[], .nil c⟩
    | cons hm hx _ ih =>
      obtain ⟨v, hv⟩ := ih
      cases hx with
      | mk h hx => exact ⟨_, .cons hm h hx hv⟩

/-- A text can be read after a move as well as before it. -/
theorem Canonizes.of_move (hmove : net.Move c c') (h : net.Canonizes c' u v m) {d : Configuration}
    (hd : net.Reaches m d) : ∃ m', net.Canonizes c u v m' ∧ net.Reaches m' d := by
  cases h with
  | nil => exact ⟨c, .nil c, hd.head hmove⟩
  | cons hm h hx hr => exact ⟨m, .cons (hm.head hmove) h hx hr, hd⟩

theorem accepts_canonical {label : Label Char Text.CharSet} {x : Char} (hx : label.accepts x = true) :
    label.accepts (label.canonical x) = true ∧ label.canonical (label.canonical x) = label.canonical x := by
  cases label with
  | symbol y => exact ⟨hx, rfl⟩
  | oneOf set =>
    cases set with
    | anyCase declared =>
      exact ⟨by simp [Label.canonical, Label.accepts, SymbolSet.contains, Text.CharSet.contains], rfl⟩
    | ranges rs | outside rs => exact ⟨hx, rfl⟩

/-- A canonical spelling can be read itself, and is spelled like this. -/
theorem Canonizes.canonical (h : net.Canonizes c u v m) : net.Canonizes c v v m := by
  induction h with
  | nil c => exact .nil c
  | @cons _ _ _ label _ x _ _ hm h hx _ ih =>
    obtain ⟨hacc, hcan⟩ := accepts_canonical hx
    have hstep := Canonizes.cons hm h hacc ih
    rwa [hcan] at hstep

/-! ### Walks are runs -/

/-- Whatever a set with a spelling accepts is spelled like this, and the spelling is accepted. -/
theorem canonical_of_spelling {set : Text.CharSet} {y : Char} (h : set.spelling? = some y) :
    (Label.oneOf set : Label Char Text.CharSet).accepts y = true ∧
      ∀ x, (Label.oneOf set : Label Char Text.CharSet).accepts x = true → (Label.oneOf set).canonical x = y := by
  match set with
  | .anyCase declared =>
    cases h
    exact ⟨by simp [Label.accepts, SymbolSet.contains, Text.CharSet.contains], fun _ _ => rfl⟩
  | .ranges [r] =>
    simp only [Text.CharSet.spelling?] at h
    split at h
    · rename_i hr
      cases h
      have hin : ∀ x, (Label.oneOf (.ranges [r]) : Label Char Text.CharSet).accepts x = true ↔ r.lo ≤ x ∧ x ≤ r.lo := by
        intro x
        simp [Label.accepts, SymbolSet.contains, Text.CharSet.contains, Text.CharRange.contains, ← hr]
      refine ⟨(hin _).2 ⟨Char.le_refl _, Char.le_refl _⟩, fun x hx => ?_⟩
      obtain ⟨hlo, hhi⟩ := (hin x).1 hx
      exact Char.le_antisymm hhi hlo
    · cases h
  | .ranges [] | .ranges (_ :: _ :: _) | .outside _ => cases h

theorem walkStep_of_move (h : net.Move c c') : net.WalkStep c.place none c'.place := by
  obtain ⟨s, stack⟩ := c
  cases h with
  | epsilon h => exact .epsilon h
  | call h hs => exact .call h hs
  | leave h hs =>
    cases stack with
    | nil => cases hs
    | cons frame rest =>
      cases hs
      exact .leave h

theorem exists_move_of_walkStep {q : WalkPosition} (h : net.WalkStep c.place none q) :
    ∃ c', net.Move c c' ∧ c'.place = q := by
  obtain ⟨s, stack⟩ := c
  generalize hp : Configuration.place ⟨s, stack⟩ = p at h
  cases h with
  | epsilon h =>
    cases hp
    exact ⟨_, .epsilon h, rfl⟩
  | call h hs =>
    cases hp
    exact ⟨_, .call h hs, rfl⟩
  | leave h =>
    obtain ⟨rfl, hreturns⟩ := WalkPosition.mk.inj hp
    obtain ⟨frame, rest, rfl, rfl, rfl⟩ := List.map_eq_cons_iff.1 hreturns
    exact ⟨⟨frame.follow, rest⟩, .leave h rfl, rfl⟩

theorem exists_consume_of_walkStep {q : WalkPosition} {y : Char} (h : net.WalkStep c.place (some y) q) :
    ∃ label target x, .consume label target ∈ net.transitions c.state ∧ label.accepts x = true ∧
      label.canonical x = y ∧ (c.movedTo target).place = q := by
  obtain ⟨s, stack⟩ := c
  generalize hp : Configuration.place ⟨s, stack⟩ = p at h
  cases h with
  | symbol h =>
    cases hp
    exact ⟨_, _, y, h, by simp [Label.accepts], rfl, rfl⟩
  | oneOf h hy =>
    cases hp
    obtain ⟨hacc, hcan⟩ := canonical_of_spelling hy
    exact ⟨_, _, y, h, hacc, hcan y hacc, rfl⟩

/-- Each walk is the way of a run. -/
theorem Walks.exists_canonizes {p q : WalkPosition} {trail : List WalkPosition} (h : net.Walks p trail v q)
    (hc : c.place = p) : ∃ u m c', net.Canonizes c u v m ∧ net.Reaches m c' ∧ c'.place = q := by
  induction h generalizing c with
  | refl p => exact ⟨[], c, c, .nil c, .refl, hc⟩
  | @step _ _ _ y _ _ h _ ih =>
    subst hc
    cases y with
    | none =>
      obtain ⟨c₁, hmove, hp⟩ := exists_move_of_walkStep h
      obtain ⟨u, m, c', hu, hm, hq⟩ := ih hp
      obtain ⟨m', hu', hm'⟩ := hu.of_move hmove hm
      exact ⟨u, m', c', hu', hm', hq⟩
    | some y =>
      obtain ⟨label, target, x, ht, hx, rfl, hp⟩ := exists_consume_of_walkStep h
      obtain ⟨u, m, c', hu, hm, hq⟩ := ih hp
      exact ⟨x :: u, m, c', .cons .refl ht hx hu, hm, hq⟩

/-! ### Runs are walks -/

theorem Walks.trans {p q r : WalkPosition} {trail trail' : List WalkPosition} (h : net.Walks p trail u q)
    (h' : net.Walks q trail' v r) : net.Walks p (trail ++ trail') (u ++ v) r := by
  induction h with
  | refl => exact h'
  | step hs _ ih =>
    rw [List.append_assoc]
    exact .step hs (ih h')

theorem exists_walks_of_reaches (h : net.Reaches c c') : ∃ trail, net.Walks c.place trail [] c'.place := by
  induction h with
  | refl => exact ⟨[], .refl _⟩
  | tail _ hmove ih =>
    obtain ⟨trail, hw⟩ := ih
    exact ⟨_, hw.trans (.step (walkStep_of_move hmove) (.refl _))⟩

/-- As long as each set of characters has a spelling, each run goes along a walk. -/
theorem Canonizes.exists_walks (h : net.Canonizes c u v m)
    (hclear : ∀ trail text q, net.Walks c.place trail text q → ¬ net.Unspelled q) :
    ∃ trail, net.Walks c.place trail v m.place := by
  induction h with
  | nil c => exact ⟨[], .refl _⟩
  | @cons c c₁ c₂ label target x u v hm h hx _ ih =>
    obtain ⟨trail, hw⟩ := exists_walks_of_reaches hm
    have hstep : net.WalkStep c₁.place (some (label.canonical x)) (c₁.movedTo target).place := by
      cases label with
      | symbol y =>
        obtain rfl : y = x := by simpa [Label.accepts] using hx
        exact .symbol h
      | oneOf set =>
        cases hy : set.spelling? with
        | none => exact absurd ⟨set, target, h, hy⟩ (hclear _ _ _ hw)
        | some y =>
          rw [(canonical_of_spelling hy).2 x hx]
          exact .oneOf h hy
    have hw' := hw.trans (.step hstep (.refl _))
    obtain ⟨trail', hrest⟩ := ih fun trail' text q hq => hclear _ _ _ (hw'.trans hq)
    exact ⟨_, hw'.trans hrest⟩

theorem canFinish_iff : net.CanFinish c ↔ net.Ends c.place := by
  unfold CanFinish Ends Configuration.place
  rw [List.map_eq_nil_iff]

/-- What the walks complete from the start of a rule are the canonical spellings. -/
theorem completes_iff {start : StateId} (hs : net.start? rule = some start)
    (hclear : ∀ trail text q, net.Walks ⟨start, []⟩ trail text q → ¬ net.Unspelled q) :
    net.Completes ⟨start, []⟩ v ↔ ∃ u, net.IsSpelling rule u v := by
  constructor
  · rintro ⟨trail, q, hw, hq⟩
    obtain ⟨u, m, c, hu, hm, rfl⟩ := hw.exists_canonizes (c := .initial start) rfl
    exact ⟨u, start, m, c, hs, hu, hm, canFinish_iff.2 hq⟩
  · rintro ⟨u, start', m, c, hs', hu, hm, hc⟩
    obtain rfl := Option.some.inj (hs.symm.trans hs')
    obtain ⟨trail, hw⟩ := hu.exists_walks hclear
    obtain ⟨trail', hw'⟩ := exists_walks_of_reaches hm
    have hq := hw.trans hw'
    rw [List.append_nil] at hq
    exact ⟨_, c.place, hq, canFinish_iff.1 hc⟩

/-! ### Spellings -/

/-- A walk through the rule meets a reason to give up: a set of characters without a spelling, a position that it has
left before, or too many open fragments. -/
def GivesUp (net : LexicalNetwork) (rule : RuleId) : Prop :=
  ∃ start trail text q, net.start? rule = some start ∧ net.Walks ⟨start, []⟩ trail text q ∧
    (net.Unspelled q ∨ q ∈ trail ∨ net.TooDeep q)

theorem fails_iff {start : StateId} (hs : net.start? rule = some start) :
    net.Fails [] ⟨start, []⟩ ↔ net.GivesUp rule := by
  constructor
  · rintro ⟨trail, text, q, hw, hq⟩
    exact ⟨start, trail, text, q, hs, hw, by simpa using hq⟩
  · rintro ⟨start', trail, text, q, hs', hw, hq⟩
    obtain rfl := Option.some.inj (hs.symm.trans hs')
    exact ⟨trail, text, q, hw, by simpa using hq⟩

theorem texts_eq {start : StateId} (hs : net.start? rule = some start) (h : ¬ net.GivesUp rule) :
    net.texts ⟨start, []⟩ [] = net.canonicalSpellings rule := by
  have hclear : ∀ trail text q, net.Walks ⟨start, []⟩ trail text q → ¬ net.Unspelled q :=
    fun trail text q hw hq => h ⟨start, trail, text, q, hs, hw, Or.inl hq⟩
  ext s
  constructor
  · rintro ⟨v, hv, rfl⟩
    obtain ⟨u, hu⟩ := (completes_iff hs hclear).1 hv
    exact ⟨u, by simpa using hu⟩
  · rintro hs'
    exact ⟨s.toList, (completes_iff hs hclear).2 hs', by simp⟩

theorem encard_of_nodup {l : List String} (h : l.Nodup) : {s | s ∈ l}.encard = l.length := by
  rw [← List.coe_toFinset, Set.encard_coe_eq_coe_finsetCard, List.toFinset_card_of_nodup h]

/-- The walk from the start of a rule either finds the canonical spellings or has a reason to give up. -/
theorem walk_from_start (hn : net.InRange) {start : StateId} (hs : net.start? rule = some start) :
    (∃ l, walk net net.walkFuel [] ⟨start, []⟩ [] [] = some l ∧ ¬ net.GivesUp rule ∧ l.Nodup ∧ l.length ≤ maxSpellings ∧
      {s | s ∈ l} = net.canonicalSpellings rule) ∨
    walk net net.walkFuel [] ⟨start, []⟩ [] [] = none ∧
      (net.GivesUp rule ∨ maxSpellings < (net.canonicalSpellings rule).encard) := by
  cases hw : walk net net.walkFuel [] ⟨start, []⟩ [] [] with
  | some l =>
    obtain ⟨hfails, hc⟩ := walk_eq_some hw
    rw [fails_iff hs] at hfails
    rw [texts_eq hs hfails] at hc
    refine Or.inl ⟨l, rfl, hfails, hc.nodup List.nodup_nil, hc.length_le (Nat.zero_le _), ?_⟩
    ext s
    simp [hc.mem_iff]
  | none =>
    refine Or.inr ⟨rfl, ?_⟩
    by_cases hfails : net.GivesUp rule
    · exact Or.inl hfails
    · have hstart : Inside (net.states.size + 1) maxFragmentDepth ⟨start, []⟩ :=
        ⟨Nat.lt_succ_of_lt (hn.start_lt hs), Nat.zero_le _, by simp⟩
      rcases walk_eq_none hn (Nat.le_succ _) (Nat.lt_succ_self _) List.nodup_nil (by simp) hstart List.nodup_nil hw
        with hf | ⟨l, hl, hlen, hmem⟩
      · exact Or.inl ((fails_iff hs).1 hf)
      · rw [texts_eq hs hfails] at hmem
        right
        calc (maxSpellings : ℕ∞) < l.length := Nat.cast_lt.2 hlen
          _ = {s | s ∈ l}.encard := (encard_of_nodup hl).symm
          _ ≤ (net.canonicalSpellings rule).encard := Set.encard_le_encard fun s hs => by simpa using hmem s hs

/-- The spellings of a rule are the canonical spellings of what it accepts, and there are none for good reasons only. -/
theorem spellings?_cases (hn : net.InRange) {start : StateId} (hs : net.start? rule = some start) :
    (∀ l, net.spellings? rule = some l →
      l.Nodup ∧ 1 ≤ l.length ∧ l.length ≤ maxSpellings ∧ {s | s ∈ l} = net.canonicalSpellings rule) ∧
    (net.spellings? rule = none ↔
      net.GivesUp rule ∨ net.canonicalSpellings rule = ∅ ∨ maxSpellings < (net.canonicalSpellings rule).encard) := by
  unfold spellings?
  rw [hs]
  rcases walk_from_start hn hs with ⟨l, hw, hup, hl, hlen, hS⟩ | ⟨hw, hwhy⟩
  · have hcard : ¬ maxSpellings < (net.canonicalSpellings rule).encard := by
      rw [← hS, encard_of_nodup hl]
      exact not_lt.2 (Nat.cast_le.2 hlen)
    cases l with
    | nil => simp [hw, ← hS]
    | cons s rest =>
      simp only [hw]
      refine ⟨fun l hl' => ?_, ?_⟩
      · cases hl'
        exact ⟨hl, Nat.succ_le_succ (Nat.zero_le _), hlen, hS⟩
      · have hne : net.canonicalSpellings rule ≠ ∅ := by
          rw [← hS]
          exact Set.Nonempty.ne_empty ⟨s, List.mem_cons_self ..⟩
        simp [hup, hne, hcard]
  · simp only [hw]
    exact ⟨by simp, iff_of_true trivial (hwhy.imp_right Or.inr)⟩

end Network

namespace Declarations

variable {d : Declarations} {g : Grammar} {kind : TokenKind} {t : TokenDef}

theorem Built.start?_of_token? (h : Built d g) (ht : g.token? kind = some t) :
    g.lexical.start? t.rule = some (2 * kind) := by
  rw [h.tokens] at ht
  obtain ⟨td, htd, rfl⟩ := Option.map_eq_some_iff.1 ht
  exact (h.token_reads htd).1

/-- The rule of a token accepts the texts of the token. -/
theorem Built.spells_iff_exists (h : Built d g) (ht : g.token? kind = some t) (u : List Char) :
    d.Spells kind u ↔ ∃ v, g.lexical.IsSpelling t.rule u v := by
  have hstart := h.start?_of_token? ht
  rw [h.tokens] at ht
  obtain ⟨td, htd, -⟩ := Option.map_eq_some_iff.1 ht
  have hspells : d.Spells kind u ↔ d.lexicalSystem.Derives [td.body] u := by
    unfold Spells
    simp [htd]
  rw [hspells, ← ((h.token_reads htd).2 u).2.2.1]
  constructor
  · rintro ⟨m, c, hm, hc⟩
    obtain ⟨v, hv⟩ := Network.exists_canonizes_iff.2 hm
    exact ⟨v, 2 * kind, m, c, hstart, hv, hc⟩
  · rintro ⟨v, start, m, c, hs, hv, hc⟩
    obtain rfl := Option.some.inj (hstart.symm.trans hs)
    exact ⟨m, c, Network.exists_canonizes_iff.1 ⟨v, hv⟩, hc⟩

/-- The spellings of the tokens are those of the lexical network. -/
theorem Built.mem_spellings_iff (h : Built d g) {s : String} :
    s ∈ g.spellings kind ↔ kind < d.tokens.length ∧ s ∈ (g.lexical.spellings? kind).getD [] := by
  unfold Grammar.spellings
  rw [h.tokens]
  by_cases hk : kind < d.tokens.length
  · simp [hk, tokenEntry]
  · simp [hk]

/-- What a token is completed to is a text of the token. -/
theorem spells_of_mem_spellings (hd : d.build = .ok g) {s : String} (hs : s ∈ g.spellings kind) :
    d.Spells kind s.toList := by
  have h := built_of_build hd
  obtain ⟨hk, hs⟩ := h.mem_spellings_iff.1 hs
  have ht : g.token? kind = some (tokenEntry g.lexical kind d.tokens[kind]) := by
    rw [h.tokens, List.getElem?_eq_getElem hk]
    rfl
  rw [h.spells_iff_exists ht]
  cases hsp : g.lexical.spellings? kind with
  | none => simp [hsp] at hs
  | some l =>
    obtain ⟨-, -, -, hS⟩ := (Network.spellings?_cases h.inRange_lexical (h.start?_of_token? ht)).1 l hsp
    rw [hsp, Option.getD_some] at hs
    have hmem : s ∈ g.lexical.canonicalSpellings kind := hS ▸ hs
    obtain ⟨u, start, m, c, hstart, hu, hend⟩ := hmem
    exact ⟨s.toList, start, m, c, hstart, hu.canonical, hend⟩

/-- The spellings of a token are the canonical spellings of its texts, distinct and at most 256.  A token is patterned
if the walk through its rule gives up, and otherwise only if it has no spellings or more than these. -/
theorem spellings_exact (hd : d.build = .ok g) (ht : g.token? kind = some t) :
    (∀ u, d.Spells kind u ↔ ∃ v, g.lexical.IsSpelling t.rule u v) ∧
    (∀ l, g.lexical.spellings? t.rule = some l →
      l.Nodup ∧ 1 ≤ l.length ∧ l.length ≤ 256 ∧ {s | s ∈ l} = g.lexical.canonicalSpellings t.rule) ∧
    (g.lexical.spellings? t.rule = none ↔
      g.lexical.GivesUp t.rule ∨ g.lexical.canonicalSpellings t.rule = ∅ ∨
        256 < (g.lexical.canonicalSpellings t.rule).encard) := by
  have h := built_of_build hd
  exact ⟨h.spells_iff_exists ht, Network.spellings?_cases h.inRange_lexical (h.start?_of_token? ht)⟩

/-- A conjunction in any letter case, with any number of spaces around it. -/
def conjunction : Declarations :=
  { tokens := [⟨"OR", .caseless "Or", false⟩, ⟨"SPACE", .many1 (.literal " "), true⟩]
    rules := [("start", .atom "OR")]
    start := some "start" }

/-- The grammar built for a conjunction. -/
def conjunctionGrammar : Grammar := conjunction.build.toOption.getD ⟨.empty, .empty, #[], 0⟩

set_option maxRecDepth 1000 in
/-- However the conjunction is typed, it is spelled as declared. -/
theorem spellings_of_conjunction :
    conjunctionGrammar.lexical.canonicalSpellings 0 = {"Or"} ∧
      ∀ u, conjunction.Spells 0 u → conjunctionGrammar.lexical.IsSpelling 0 u "Or".toList := by
  have hd : conjunction.build = .ok conjunctionGrammar := by cbv
  have ht : conjunctionGrammar.token? 0 = some ⟨0, "OR", 0, false, ["Or"]⟩ := by cbv
  have hl : conjunctionGrammar.lexical.spellings? 0 = some ["Or"] := by cbv
  obtain ⟨hspells, hlist, -⟩ := spellings_exact hd ht
  obtain ⟨-, -, -, hS⟩ := hlist _ hl
  have hset : conjunctionGrammar.lexical.canonicalSpellings 0 = {"Or"} := by
    rw [← hS]
    ext s
    simp
  refine ⟨hset, fun u hu => ?_⟩
  obtain ⟨v, hv⟩ := (hspells u).1 hu
  have hmem : String.ofList v ∈ conjunctionGrammar.lexical.canonicalSpellings 0 := ⟨u, by simpa using hv⟩
  rw [hset, Set.mem_singleton_iff] at hmem
  rw [← hmem]
  simpa using hv

end Declarations

end Typeahead
