import Typeahead.Proofs.Grammar.Declared
import Typeahead.Proofs.Network.Paths

/-!
# States and the rules that own them

In a well-formed network each state belongs to a rule, and the only ways from one rule to another are calls and the one
transition that leaves the stop state (`Network.WellFormed`).  The networks of a built grammar are well formed, because
they are when the rules are declared and each body adds states and transitions of its own rule only
(`WellFormed.layOutRule`).
-/

namespace Typeahead

open Network

namespace Network

variable {σ τ : Type} {net : Network σ τ} {A : Label σ τ → Prop} {rule : RuleId}

/-- Each state stores its position and belongs to a rule, which it is left for in the stop state only.  Labels satisfy
`A`. -/
structure WellFormed (A : Label σ τ → Prop) (net : Network σ τ) : Prop where
  /-- The stored name of a state is its position. -/
  id_eq : ∀ {s : Nat} {state}, net.states[s]? = some state → state.id = s
  /-- The owner of a state is declared. -/
  owner_lt : ∀ {s rule}, net.owner? s = some rule → rule < net.rules.size
  /-- A transition goes on at a state that exists and belongs to the same rule. -/
  next : ∀ {s t u}, t ∈ net.transitions s → t.next? = some u → u < net.states.size ∧ net.owner? u = net.owner? s
  /-- Called rules are declared. -/
  all : ∀ {s t}, t ∈ net.transitions s → t.All A (· < net.rules.size)
  start : ∀ {rule : RuleId} {info}, net.rules[rule]? = some info →
    ∃ ts, net.states[info.start]? = some ⟨info.start, rule, .ruleStart, ts⟩
  stop : ∀ {rule : RuleId} {info}, net.rules[rule]? = some info →
    net.states[info.stop]? = some ⟨info.stop, rule, .ruleStop, [.leave]⟩
  start_ne_stop : ∀ {rule : RuleId} {info}, net.rules[rule]? = some info → info.start ≠ info.stop
  /-- Only a stop state can be left together with its rule. -/
  leave : ∀ {s}, .leave ∈ net.transitions s → ∃ info ∈ net.rules, info.stop = s

variable {info : Rule} {s u : StateId}

theorem WellFormed.owner?_start (h : net.WellFormed A) (hr : net.rules[rule]? = some info) :
    net.owner? info.start = some rule := by
  obtain ⟨ts, hs⟩ := h.start hr
  unfold owner?
  rw [hs]
  rfl

theorem WellFormed.owner?_stop (h : net.WellFormed A) (hr : net.rules[rule]? = some info) :
    net.owner? info.stop = some rule := by
  unfold owner?
  rw [h.stop hr]
  rfl

/-- No rule starts where a rule stops. -/
theorem WellFormed.start_ne (h : net.WellFormed A) (hr : net.rules[rule]? = some info) {info' : Rule}
    (hi : info' ∈ net.rules) : info.start ≠ info'.stop := by
  intro he
  obtain ⟨rule', hr'⟩ := Array.mem_iff_getElem?.1 hi
  obtain ⟨ts, hs⟩ := h.start hr
  have hstop := h.stop hr'
  rw [← he, hs] at hstop
  cases hstop

/-! ### Additions -/

theorem WellFormed.addState (h : net.WellFormed A) (hr : rule < net.rules.size) (kind : StateKind) :
    (net.addState rule kind).2.WellFormed A := by
  have hold : ∀ {i : Nat} {state}, net.states[i]? = some state →
      (net.addState rule kind).2.states[i]? = some state := by
    intro i state hi
    have hlt := (Array.getElem?_eq_some_iff.1 hi).1
    unfold Network.addState
    rw [Array.getElem?_push, if_neg (Nat.ne_of_lt hlt), hi]
  refine ⟨fun {s state} hs => ?_, fun {s rule'} hs => ?_, fun {s t u} ht hu => ?_, fun ht => ?_, fun hr' => ?_,
    fun hr' => hold (h.stop hr'), h.start_ne_stop, fun ht => ?_⟩
  · unfold Network.addState at hs
    rw [Array.getElem?_push] at hs
    split at hs
    · rename_i hnew
      cases hs
      exact hnew.symm
    · exact h.id_eq hs
  · rw [owner?_addState] at hs
    split at hs
    · cases hs
      exact hr
    · exact h.owner_lt hs
  · rw [transitions_addState] at ht
    obtain ⟨hlt, howner⟩ := h.next ht hu
    have hs := lt_size_of_mem_transitions ht
    rw [size_states_addState, owner?_addState, owner?_addState, if_neg (Nat.ne_of_lt hlt), if_neg (Nat.ne_of_lt hs)]
    exact ⟨Nat.lt_succ_of_lt hlt, howner⟩
  · rw [transitions_addState] at ht
    exact h.all ht
  · obtain ⟨ts, hts⟩ := h.start hr'
    exact ⟨ts, hold hts⟩
  · rw [transitions_addState] at ht
    exact h.leave ht

/-- A transition may be added between two states of one rule, but not to a stop state. -/
theorem WellFormed.addTransition (h : net.WellFormed A) {t : Transition σ τ} (hs : net.owner? s = some rule)
    (hu : net.owner? u = some rule) (hnext : t.next? = some u) (hall : t.All A (· < net.rules.size))
    (hstop : ∀ info ∈ net.rules, s ≠ info.stop) : (net.addTransition s t).WellFormed A := by
  have hlt := lt_size_of_owner? hs
  refine ⟨fun {s' state} hs' => ?_, fun ho => ?_, fun {s' t' u'} ht' hu' => ?_, fun ht' => ?_,
    fun {rule' info} hr => ?_, fun {rule' info} hr => ?_, h.start_ne_stop, fun ht' => ?_⟩
  · unfold Network.addTransition at hs'
    rw [Array.getElem?_modify] at hs'
    split at hs'
    · obtain ⟨state', hstate, rfl⟩ := Option.map_eq_some_iff.1 hs'
      have hid : state'.id = s' := h.id_eq hstate
      exact hid
    · exact h.id_eq hs'
  · rw [owner?_addTransition] at ho
    exact h.owner_lt ho
  · rw [size_states_addTransition, owner?_addTransition, owner?_addTransition]
    rcases (mem_transitions_addTransition hlt).1 ht' with ht' | ⟨rfl, rfl⟩
    · exact h.next ht' hu'
    · cases hnext.symm.trans hu'
      exact ⟨lt_size_of_owner? hu, hu.trans hs.symm⟩
  · rcases (mem_transitions_addTransition hlt).1 ht' with ht' | ⟨rfl, rfl⟩
    · exact h.all ht'
    · exact hall
  · obtain ⟨ts, hts⟩ := h.start hr
    unfold Network.addTransition
    rw [Array.getElem?_modify, hts]
    split
    · exact ⟨ts ++ [t], rfl⟩
    · exact ⟨ts, rfl⟩
  · unfold Network.addTransition
    rw [Array.getElem?_modify, if_neg (hstop info (Array.mem_of_getElem? hr)), h.stop hr]
  · rcases (mem_transitions_addTransition hlt).1 ht' with ht' | ⟨rfl, rfl⟩
    · exact h.leave ht'
    · cases hnext

/-- The body of a rule is laid out in states of the rule. -/
theorem WellFormed.layOutRule (h : net.WellFormed A) (rule : RuleId) {p : ResolvedPattern σ τ}
    (hp : p.All A (· < net.rules.size)) :
    (net.layOutRule rule p).WellFormed A ∧ (net.layOutRule rule p).rules = net.rules := by
  cases hr : net.rules[rule]? with
  | none =>
    unfold Network.layOutRule
    rw [hr]
    exact ⟨h, rfl⟩
  | some info =>
    have hstart := lt_size_of_owner? (h.owner?_start hr)
    have hlt := (Array.getElem?_eq_some_iff.1 hr).1
    -- a transition leaves the start state or one of the new states, so no stop state
    have hsource : ∀ {a s}, net.GrowsAt rule info.start a → a.WellFormed A → s = info.start ∨ net.states.size ≤ s →
        s < a.states.size → a.owner? s = some rule ∧ ∀ info' ∈ a.rules, s ≠ info'.stop := by
      intro a s hg ha hs hlt
      rcases hs with rfl | hs
      · rw [hg.owner?, if_neg (fun hnew => Nat.not_le.2 hstart hnew.1)]
        exact ⟨h.owner?_start hr, fun info' hi => ha.start_ne (hg.rules ▸ hr) hi⟩
      · rw [hg.owner?, if_pos ⟨hs, hlt⟩]
        refine ⟨rfl, fun info' hi he => ?_⟩
        obtain ⟨rule', hr'⟩ := Array.mem_iff_getElem?.1 (hg.rules ▸ hi)
        have hstop := lt_size_of_owner? (h.owner?_stop hr')
        rw [← he] at hstop
        exact Nat.not_lt.2 hs hstop
    have K : KeptWithin A (· < net.rules.size)
        (fun a b => b = a ∧ net.GrowsAt rule info.start a ∧ a.WellFormed A) rule info.start net.states.size := by
      refine ⟨fun h => by rw [h.1], fun h => h.2.1.size_le, ?_, ?_⟩
      · rintro a b kind ⟨rfl, hg, ha⟩
        exact ⟨rfl, hg.addState kind, ha.addState (hg.rules ▸ hlt) kind⟩
      · rintro a b s u t ⟨rfl, hg, ha⟩ hs hsize hnext hle hu hall
        obtain ⟨howner, hstop⟩ := hsource hg ha hs hsize
        have hu' : b.owner? u = some rule := by rw [hg.owner?, if_pos ⟨hle, hu⟩]
        exact ⟨rfl, hg.addTransition hs t, ha.addTransition howner hu' hnext (hg.rules ▸ hall) hstop⟩
    obtain ⟨⟨-, hg, ha⟩, -, hin⟩ := K.layOut p hp ⟨rfl, .refl net rule info.start, h⟩ (Or.inl rfl) hstart
    obtain ⟨-, hlast, -⟩ := layOut_spans rule p hstart
    obtain ⟨howner, hstop⟩ := hsource hg ha hin hlast
    rw [layOutRule_eq p hr]
    exact ⟨ha.addTransition howner (ha.owner?_stop (hg.rules ▸ hr)) rfl trivial hstop, hg.rules⟩

private theorem WellFormed.foldl_layOutRule {l : List (ResolvedPattern σ τ × RuleId)} {net : Network σ τ}
    (h : net.WellFormed A) (hl : ∀ x ∈ l, x.1.All A (· < net.rules.size)) :
    (l.foldl (fun net (p, rule) => net.layOutRule rule p) net).WellFormed A := by
  induction l generalizing net with
  | nil => exact h
  | cons x l ih =>
    obtain ⟨hx, hl⟩ := List.forall_mem_cons.1 hl
    obtain ⟨h', hrules⟩ := h.layOutRule x.2 hx
    exact ih h' (hrules ▸ hl)

/-! ### Declared rules -/

private theorem getElem?_states_addRule (net : Network σ τ) (name : String) (s : Nat) :
    (net.addRule name).2.states[s]? =
      if s = net.states.size + 1 then some ⟨s, net.rules.size, .ruleStop, [.leave]⟩
      else if s = net.states.size then some ⟨s, net.rules.size, .ruleStart, []⟩ else net.states[s]? := by
  simp only [addRule, Network.addState, Network.addTransition, Array.getElem?_modify, Array.getElem?_push,
    Array.size_push]
  grind

/-- The two states of each declared rule. -/
theorem getElem?_states_declareRules (names : List String) (s : Nat) :
    (Declarations.declareRules names : Network σ τ).states[s]? =
      if s < 2 * names.length then
        some (if s % 2 = 0 then ⟨s, s / 2, .ruleStart, []⟩ else ⟨s, s / 2, .ruleStop, [.leave]⟩)
      else none := by
  induction names using List.reverseRecOn with
  | nil => simp [Declarations.declareRules, empty]
  | append_singleton names name ih =>
    have hd : (Declarations.declareRules names : Network σ τ).Declares names := declares_declareRules names
    have hsplit : (Declarations.declareRules (names ++ [name]) : Network σ τ) =
        ((Declarations.declareRules names : Network σ τ).addRule name).2 := by
      unfold Declarations.declareRules
      rw [List.foldl_append]
      rfl
    rw [hsplit, getElem?_states_addRule, ih, hd.size_states, hd.size_rules, List.length_append, List.length_singleton]
    by_cases hstop : s = 2 * names.length + 1
    · have hhalf : s / 2 = names.length := by omega
      rw [if_pos hstop, if_pos (by omega), if_neg (by omega), hhalf]
    · rw [if_neg hstop]
      by_cases hstart : s = 2 * names.length
      · have hhalf : s / 2 = names.length := by omega
        rw [if_pos hstart, if_pos (by omega), if_pos (by omega), hhalf]
      · rw [if_neg hstart]
        exact if_congr (by omega) rfl rfl

theorem wellFormed_declareRules (names : List String) :
    (Declarations.declareRules names : Network σ τ).WellFormed A := by
  have hd : (Declarations.declareRules names : Network σ τ).Declares names := declares_declareRules names
  have hleave : ∀ {s t}, t ∈ (Declarations.declareRules names : Network σ τ).transitions s → t = .leave :=
    fun ht => ((hd.mem_transitions _ _).1 ht).2.2
  -- the end points of a declared rule
  have hends : ∀ {rule : Nat} {info}, (Declarations.declareRules names : Network σ τ).rules[rule]? = some info →
      rule < names.length ∧ info.start = 2 * rule ∧ info.stop = 2 * rule + 1 := by
    intro rule info hr
    rw [hd.rules, Option.map_eq_some_iff] at hr
    obtain ⟨name, hname, rfl⟩ := hr
    exact ⟨(List.getElem?_eq_some_iff.1 hname).1, rfl, rfl⟩
  refine ⟨fun {s state} hs => ?_, fun {s rule} hs => ?_, fun ht hu => ?_, fun ht => ?_, fun {rule info} hr => ?_,
    fun {rule info} hr => ?_, fun {rule info} hr => ?_, fun {s : Nat} ht => ?_⟩
  · rw [getElem?_states_declareRules] at hs
    split at hs
    · split at hs <;> cases hs <;> rfl
    · cases hs
  · have hlt := lt_size_of_owner? hs
    rw [hd.size_states] at hlt
    rw [hd.owner? s hlt] at hs
    cases hs
    rw [hd.size_rules]
    exact Nat.div_lt_of_lt_mul hlt
  · cases hleave ht
    cases hu
  · cases hleave ht
    trivial
  · obtain ⟨hlt, hstart, -⟩ := hends hr
    refine ⟨[], ?_⟩
    rw [hstart, getElem?_states_declareRules, if_pos (by omega), if_pos (by omega),
      Nat.mul_div_cancel_left _ Nat.two_pos]
  · obtain ⟨hlt, -, hstop⟩ := hends hr
    have hhalf : (2 * rule + 1 : Nat) / 2 = rule := by omega
    rw [hstop, getElem?_states_declareRules, if_pos (by omega), if_neg (by omega), hhalf]
  · obtain ⟨-, hstart, hstop⟩ := hends hr
    rw [hstart, hstop]
    exact Nat.ne_of_lt (Nat.lt_succ_self _)
  · obtain ⟨hlt, hodd, -⟩ := (hd.mem_transitions s .leave).1 ht
    have hrule : s / 2 < names.length := by omega
    have hinfo : (Declarations.declareRules names : Network σ τ).rules[s / 2]? =
        some ⟨names[s / 2], 2 * (s / 2), 2 * (s / 2) + 1⟩ := by
      rw [hd.rules, List.getElem?_eq_getElem hrule]
      rfl
    refine ⟨_, Array.mem_of_getElem? hinfo, ?_⟩
    show (2 * (s / 2) + 1 : Nat) = s
    omega

/-- A network that is laid out for bodies is well formed if the bodies refer to declared rules only. -/
theorem wellFormed_layOutBodies (names : List String) {bodies : List (ResolvedPattern σ τ)}
    (h : ∀ p ∈ bodies, p.All A (· < names.length)) :
    (Declarations.layOutBodies (Declarations.declareRules names) bodies).WellFormed A := by
  refine (wellFormed_declareRules names).foldl_layOutRule fun x hx => ?_
  rw [(declares_declareRules names).size_rules]
  exact h x.1 (List.fst_mem_of_mem_zipIdx hx)

end Network

/-! ### Built grammars -/

namespace Pattern

variable {ρ : Type} {A : Label TokenKind (List TokenKind) → Prop} {B : ρ → Prop}

private theorem forall_of_allOf_symbols {ss : List TokenKind}
    (h : AllOf A B (ss.map fun s => .atom (.symbol s))) : ∀ s ∈ ss, A (.symbol s) := by
  induction ss with
  | nil => exact fun s hs => nomatch hs
  | cons s ss ih => exact List.forall_mem_cons.2 ⟨h.1, ih h.2⟩

mutual

/-- Merging makes sets of the symbols that are there. -/
theorem all_mergeSymbols (hA : ∀ ss : List TokenKind, (∀ s ∈ ss, A (.symbol s)) → A (.oneOf ss.eraseDups))
    (p : Pattern (Label TokenKind (List TokenKind)) ρ) (h : p.All A B) : p.mergeSymbols.All A B := by
  match p with
  | .empty | .atom a | .ref r => exact h
  | .seq ps => exact allOf_mergeSymbolsAll hA ps h
  | .optional p | .many p | .many1 p => exact all_mergeSymbols hA p h
  | .alt ps =>
    rw [mergeSymbols]
    split
    · rename_i hs
      rw [All, symbols?_eq_some hs] at h
      exact hA _ (forall_of_allOf_symbols h)
    · exact allOf_mergeSymbolsAll hA ps h

theorem allOf_mergeSymbolsAll (hA : ∀ ss : List TokenKind, (∀ s ∈ ss, A (.symbol s)) → A (.oneOf ss.eraseDups))
    (ps : List (Pattern (Label TokenKind (List TokenKind)) ρ)) (h : AllOf A B ps) :
    AllOf A B (mergeSymbolsAll ps) := by
  match ps with
  | [] => trivial
  | p :: ps => exact ⟨all_mergeSymbols hA p h.1, allOf_mergeSymbolsAll hA ps h.2⟩

end

end Pattern

namespace Declarations

variable {d : Declarations} {g : Grammar}

theorem lt_of_number {names : List String} {error : GrammarError} {name : String} {i : Nat}
    (h : number names error name = .ok i) : i < names.length :=
  (List.getElem?_eq_some_iff.1 (getElem?_of_idxOf? (number_eq_ok_iff.1 h))).1

theorem Built.wellFormed_lexical (h : Built d g) : g.lexical.WellFormed fun _ => True := by
  obtain ⟨bodies, hres, hnet⟩ := h.lexical
  rw [hnet]
  refine wellFormed_layOutBodies _ fun p hp => ?_
  obtain ⟨_, -, hp⟩ := RuleSystem.exists_mem_of_forall₂ (forall₂_of_resolveBodies hres).flip hp
  exact Pattern.all_of_resolve (fun _ => trivial) lt_of_number _ hp

theorem Built.size_tokens (h : Built d g) : g.tokens.size = d.tokens.length := by
  have hle : ∀ k, g.tokens.size ≤ k ↔ d.tokens.length ≤ k := by
    intro k
    rw [← Array.getElem?_eq_none_iff, h.getElem?_tokens, Option.map_eq_none_iff, List.getElem?_eq_none_iff]
  have h₁ := (hle d.tokens.length).2 (Nat.le_refl _)
  have h₂ := (hle g.tokens.size).1 (Nat.le_refl _)
  omega

/-- The labels of the phrase network accept kinds of tokens only. -/
theorem Built.wellFormed_phrase (h : Built d g) :
    g.phrase.WellFormed fun label => ∀ kind, label.accepts kind = true → kind < g.tokens.size := by
  obtain ⟨bodies, hres, hnet⟩ := h.phrase
  rw [hnet, h.size_tokens]
  refine wellFormed_layOutBodies _ fun p hp => ?_
  obtain ⟨_, -, hp⟩ := RuleSystem.exists_mem_of_forall₂ (forall₂_of_resolveBodies hres).flip hp
  simp only [resolvePhrase, except_bind_eq_ok] at hp
  obtain ⟨q, hq, hmerge⟩ := hp
  cases hmerge
  refine Pattern.all_mergeSymbols (fun ss hss kind hk => ?_) q ?_
  · have hmem : kind ∈ ss := by simpa [Label.accepts, SymbolSet.contains] using hk
    exact hss kind hmem kind (by simp [Label.accepts])
  · refine Pattern.all_of_resolve (fun {name label} hl kind hk => ?_) lt_of_number _ hq
    obtain ⟨i, hi, rfl⟩ := except_map_eq_ok.1 hl
    have hlt := lt_of_number hi
    rw [List.length_map] at hlt
    rwa [← of_decide_eq_true hk]

end Declarations

end Typeahead
