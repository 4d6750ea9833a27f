import Typeahead.Proofs.Grammar.Account
import Typeahead.Proofs.Grammar.Words
import Typeahead.Proofs.Network.Additions

/-!
# Paths through a rule

Once the rules that are called have languages, a rule of a network has a language of its own: the words that are spelled
on the paths from its start to its stop (`Spells`).  When a body is laid out for a rule that has none, the paths spell
exactly the words of the body (`Bodiless.spells_iff`), and the states of the other rules are left alone
(`Bodiless.transitions_layOutRule`).
-/

namespace Typeahead.Network

open Pattern RuleSystem

variable {σ τ : Type} {net : Network σ τ} {rule : RuleId} {info : Rule}

/-! ### Rules without a body -/

/-- The rule is declared, nothing leaves its start state, and its stop state can only be left together with the rule. -/
structure Bodiless (net : Network σ τ) (rule : RuleId) (info : Rule) : Prop where
  rules : net.rules[rule]? = some info
  start_ne_stop : info.start ≠ info.stop
  owner_start : net.owner? info.start = some rule
  owner_stop : net.owner? info.stop = some rule
  transitions_start : net.transitions info.start = []
  eq_leave : ∀ t ∈ net.transitions info.stop, t = .leave

/-- Declared rules have no bodies yet. -/
theorem Declares.bodiless {names : List String} (h : net.Declares names) {i : Nat} (hi : i < names.length) :
    net.Bodiless i ⟨names[i], 2 * i, 2 * i + 1⟩ := by
  have howner : ∀ s : Nat, s / 2 = i → net.owner? s = some i := by
    intro s hs
    rw [h.owner? s (by omega), hs]
  refine ⟨?_, Nat.ne_of_lt (Nat.lt_succ_self _), howner (2 * i) (by omega), howner (2 * i + 1) (by omega), ?_, ?_⟩
  · rw [h.rules, List.getElem?_eq_getElem hi]
    rfl
  · refine List.eq_nil_iff_forall_not_mem.2 fun t ht => ?_
    obtain ⟨-, hodd, -⟩ := (h.mem_transitions (2 * i) t).1 ht
    omega
  · intro t ht
    exact ((h.mem_transitions _ t).1 ht).2.2

/-! ### The states of other rules -/

/-- The network has gained states of the rule, and transitions that leave these states or the entry. -/
structure GrowsAt (net : Network σ τ) (rule : RuleId) (entry : StateId) (net' : Network σ τ) : Prop where
  size_le : net.states.size ≤ net'.states.size
  rules : net'.rules = net.rules
  owner? : ∀ s : Nat, net'.owner? s = if net.states.size ≤ s ∧ s < net'.states.size then some rule else net.owner? s
  transitions : ∀ s < net.states.size, s ≠ entry → net'.transitions s = net.transitions s

variable {net' : Network σ τ} {entry : StateId}

theorem GrowsAt.refl (net : Network σ τ) (rule : RuleId) (entry : StateId) : net.GrowsAt rule entry net := by
  refine ⟨Nat.le_refl _, rfl, fun s => ?_, fun _ _ _ => rfl⟩
  rw [if_neg]
  omega

theorem GrowsAt.addState (h : net.GrowsAt rule entry net') (kind : StateKind) :
    net.GrowsAt rule entry (net'.addState rule kind).2 := by
  have hsize := h.size_le
  refine ⟨?_, h.rules, fun s => ?_, fun s hs hne => ?_⟩
  · rw [size_states_addState]
    omega
  · rw [owner?_addState, h.owner?, size_states_addState]
    by_cases hnew : s = net'.states.size
    · rw [if_pos hnew, if_pos (by omega)]
    · rw [if_neg hnew]
      exact if_congr (by omega) rfl rfl
  · rw [transitions_addState, h.transitions s hs hne]

theorem GrowsAt.addTransition (h : net.GrowsAt rule entry net') {s : StateId} (hs : s = entry ∨ net.states.size ≤ s)
    (t : Transition σ τ) : net.GrowsAt rule entry (net'.addTransition s t) := by
  refine ⟨?_, h.rules, fun u => ?_, fun u hu hne => ?_⟩
  · rw [size_states_addTransition]
    exact h.size_le
  · rw [owner?_addTransition, h.owner?, size_states_addTransition]
  · have hus : u ≠ s := by
      rintro rfl
      exact hs.elim hne (Nat.not_le.2 hu)
    rw [transitions_addTransition_of_ne hus, h.transitions u hu hne]

theorem GrowsAt.keptWithin (net : Network σ τ) (rule : RuleId) (entry : StateId) :
    KeptWithin (fun _ => True) (fun _ => True) (fun a b => b = a ∧ net.GrowsAt rule entry a) rule entry
      net.states.size := by
  refine ⟨fun h => by rw [h.1], fun h => h.2.size_le, fun kind h => ⟨by rw [h.1], h.2.addState kind⟩, ?_⟩
  intro a b s u t h hs _ _ _ _ _
  exact ⟨by rw [h.1], h.2.addTransition hs t⟩

/-- A body is laid out from the start of the rule. -/
theorem Bodiless.growsAt (h : net.Bodiless rule info) (p : ResolvedPattern σ τ) :
    net.GrowsAt rule info.start (net.layOutRule rule p) := by
  obtain ⟨⟨-, hlast⟩, -, hin⟩ := (GrowsAt.keptWithin net rule info.start).layOut p (all_true p)
    ⟨rfl, .refl net rule info.start⟩ (Or.inl rfl) (lt_size_of_owner? h.owner_start)
  rw [layOutRule_eq p h.rules]
  exact hlast.addTransition hin _

/-- Laying out a body adds no transition to a state of another rule. -/
theorem Bodiless.transitions_layOutRule (h : net.Bodiless rule info) (p : ResolvedPattern σ τ) {s : Nat}
    (hs : (net.layOutRule rule p).owner? s ≠ some rule) :
    (net.layOutRule rule p).transitions s = net.transitions s := by
  have hg := h.growsAt p
  rw [hg.owner?] at hs
  by_cases hold : s < net.states.size
  · refine hg.transitions s hold ?_
    rintro rfl
    rw [if_neg (by omega)] at hs
    exact hs h.owner_start
  · by_cases hnew : s < (net.layOutRule rule p).states.size
    · rw [if_pos (by omega)] at hs
      exact absurd rfl hs
    · -- the state is not there, neither before nor afterwards
      rw [transitions_eq_nil (Nat.not_lt.1 hold), transitions_eq_nil (Nat.not_lt.1 hnew)]

/-- Another rule that has no body still has none. -/
theorem Bodiless.layOutRule {other : RuleId} {info' : Rule} (h : net.Bodiless rule info) (p : ResolvedPattern σ τ)
    (h' : net.Bodiless other info') (hne : other ≠ rule) : (net.layOutRule rule p).Bodiless other info' := by
  have hg := h.growsAt p
  have howner : ∀ {s}, net.owner? s = some other → (net.layOutRule rule p).owner? s = some other ∧
      (net.layOutRule rule p).transitions s = net.transitions s := by
    intro s hs
    have hlt := lt_size_of_owner? hs
    have hstart : s ≠ info.start := by
      rintro rfl
      exact hne (Option.some.inj (hs.symm.trans h.owner_start))
    rw [hg.owner?, if_neg (fun hnew => Nat.not_le.2 hlt hnew.1)]
    exact ⟨hs, hg.transitions s hlt hstart⟩
  obtain ⟨hos, hts⟩ := howner h'.owner_start
  obtain ⟨hot, htt⟩ := howner h'.owner_stop
  exact ⟨by rw [hg.rules, h'.rules], h'.start_ne_stop, hos, hot, hts.trans h'.transitions_start,
    fun t ht => h'.eq_leave t (htt ▸ ht)⟩

/-! ### What is laid out by itself -/

variable {s t u : StateId}

/-- The network with the same states, which now all belong to the rule and have no transitions. -/
def blank (net : Network σ τ) (rule : RuleId) : Network σ τ :=
  { net with states := net.states.map fun s => { s with rule, transitions := [] } }

private theorem owner?_blank (hs : s < net.states.size) : (net.blank rule).owner? s = some rule := by
  unfold owner? blank
  rw [Array.getElem?_map, Array.getElem?_eq_getElem hs]
  rfl

private theorem transitions_blank : (net.blank rule).transitions s = [] := by
  unfold transitions blank
  rw [Array.getElem?_map]
  cases net.states[s]? with
  | none => rfl
  | some state => rfl

/-- The second network has the transitions that leave the start or new states of the first, and these lead to new
states. -/
structure Mirrors (start old : StateId) (a b : Network σ τ) : Prop where
  size_eq : b.states.size = a.states.size
  le_size : old ≤ a.states.size
  mem_transitions : ∀ {s t}, s = start ∨ old ≤ s → t ∈ a.transitions s →
    t ∈ b.transitions s ∧ ∃ u, t.next? = some u ∧ old ≤ u ∧ u < a.states.size

private theorem Mirrors.keptWithin (start old : StateId) (rule : RuleId) :
    KeptWithin (fun _ => True) (fun _ => True) (Mirrors start old : Network σ τ → Network σ τ → Prop) rule start
      old := by
  refine ⟨Mirrors.size_eq, Mirrors.le_size, fun {a b} kind h => ⟨?_, ?_, ?_⟩,
    fun {a b s u} t h _ hlt hnext hu hu' _ => ⟨?_, ?_, ?_⟩⟩
  · rw [size_states_addState, size_states_addState, h.size_eq]
  · rw [size_states_addState]
    exact Nat.le_succ_of_le h.le_size
  · intro s t hs ht
    rw [transitions_addState] at ht ⊢
    obtain ⟨hb, u, hnext, hu, hlt⟩ := h.mem_transitions hs ht
    rw [size_states_addState]
    exact ⟨hb, u, hnext, hu, Nat.lt_succ_of_lt hlt⟩
  · rw [size_states_addTransition, size_states_addTransition, h.size_eq]
  · rw [size_states_addTransition]
    exact h.le_size
  · intro s' t' hs' ht'
    rw [mem_transitions_addTransition hlt] at ht'
    rw [mem_transitions_addTransition (h.size_eq ▸ hlt), size_states_addTransition]
    rcases ht' with ht' | ⟨rfl, rfl⟩
    · obtain ⟨hb, hnext'⟩ := h.mem_transitions hs' ht'
      exact ⟨Or.inl hb, hnext'⟩
    · exact ⟨Or.inr ⟨rfl, rfl⟩, u, hnext, hu, hu'⟩

/-- The states between which a body has been laid out: the end points of the rule, and the states that are new. -/
def IsPart (net : Network σ τ) (info : Rule) (net' : Network σ τ) (s : Nat) : Prop :=
  s = info.start ∨ s = info.stop ∨ net.states.size ≤ s ∧ s < net'.states.size

theorem Bodiless.owner?_of_isPart (h : net.Bodiless rule info) {p : ResolvedPattern σ τ}
    (hs : net.IsPart info (net.layOutRule rule p) s) : (net.layOutRule rule p).owner? s = some rule := by
  rw [(h.growsAt p).owner?]
  rcases hs with rfl | rfl | hs
  · rw [h.owner_start, ite_self]
  · rw [h.owner_stop, ite_self]
  · rw [if_pos hs]

/-- A body is laid out in the same way in a network of its own, and it is not left but with the rule. -/
theorem Bodiless.mem_transitions_of_isPart (h : net.Bodiless rule info) {p : ResolvedPattern σ τ} {t : Transition σ τ}
    (hs : net.IsPart info (net.layOutRule rule p) s) (ht : t ∈ (net.layOutRule rule p).transitions s) :
    t = .leave ∨ t ∈ ((net.blank rule).layOutRule rule p).transitions s ∧
      ∃ u, t.next? = some u ∧ net.IsPart info (net.layOutRule rule p) u := by
  have hlt := lt_size_of_owner? h.owner_start
  have hnil : ∀ s, s = info.start ∨ net.states.size ≤ s → net.transitions s = [] := by
    rintro s (rfl | hs)
    · exact h.transitions_start
    · exact transitions_eq_nil hs
  have hstart : Mirrors info.start net.states.size net (net.blank rule) := by
    refine ⟨Array.size_map, Nat.le_refl _, fun {s t} hs ht => ?_⟩
    rw [hnil s hs] at ht
    cases ht
  have hblank : (net.blank rule).rules[rule]? = some info := h.rules
  obtain ⟨hm, hexit, -⟩ := (Mirrors.keptWithin _ _ rule).layOut p (all_true p) hstart (Or.inl rfl) hlt
  obtain ⟨-, hlast, -⟩ := layOut_spans rule p hlt
  have hpart : ∀ s, s = info.start ∨ net.states.size ≤ s → t ∈ (net.layOutRule rule p).transitions s →
      t ∈ ((net.blank rule).layOutRule rule p).transitions s ∧
        ∃ u, t.next? = some u ∧ net.IsPart info (net.layOutRule rule p) u := by
    intro s hs ht
    unfold IsPart
    rw [layOutRule_eq p h.rules] at ht ⊢
    rw [mem_transitions_addTransition hlast] at ht
    rw [layOutRule_eq p hblank, hexit, mem_transitions_addTransition (hm.size_eq ▸ hlast), size_states_addTransition]
    rcases ht with ht | ⟨rfl, rfl⟩
    · obtain ⟨hb, u, hnext, hu⟩ := hm.mem_transitions hs ht
      exact ⟨Or.inl hb, u, hnext, Or.inr (Or.inr hu)⟩
    · exact ⟨Or.inr ⟨rfl, rfl⟩, info.stop, rfl, Or.inr (Or.inl rfl)⟩
  rcases hs with hs | rfl | hs
  · exact Or.inr (hpart s (Or.inl hs) ht)
  · rw [(h.growsAt p).transitions _ (lt_size_of_owner? h.owner_stop) h.start_ne_stop.symm] at ht
    exact Or.inl (h.eq_leave t ht)
  · exact Or.inr (hpart s (Or.inr hs.1) ht)

/-! ### Paths -/

variable [DecidableEq σ] [SymbolSet τ σ] {E : RuleId → Language σ} {p : ResolvedPattern σ τ} {v w : List σ}

/-- The word is spelled on a path that does not leave the rule; a call spells any word of the called rule. -/
inductive Spells (net : Network σ τ) (E : RuleId → Language σ) : StateId → List σ → StateId → Prop where
  | refl (s : StateId) : Spells net E s [] s
  | epsilon {s t u : StateId} {w : List σ} (h : .epsilon t ∈ net.transitions s) (hw : Spells net E t w u) :
    Spells net E s w u
  | consume {s t u : StateId} {label : Label σ τ} {x : σ} {w : List σ} (h : .consume label t ∈ net.transitions s)
    (hx : label.Accepts x) (hw : Spells net E t w u) : Spells net E s (x :: w) u
  | call {s t u : StateId} {callee : RuleId} {v w : List σ} (h : .call callee t ∈ net.transitions s)
    (hv : v ∈ E callee) (hw : Spells net E t w u) : Spells net E s (v ++ w) u

theorem Spells.trans (h : net.Spells E s v t) (h' : net.Spells E t w u) : net.Spells E s (v ++ w) u := by
  induction h with
  | refl => exact h'
  | epsilon h _ ih => exact .epsilon h (ih h')
  | consume h hx _ ih => exact .consume h hx (ih h')
  | call h hv _ ih =>
    rw [List.append_assoc]
    exact .call h hv (ih h')

theorem Glued.spells (h : net.Glued s t) : net.Spells E s [] t := by
  induction h using Relation.ReflTransGen.head_induction_on with
  | refl => exact .refl t
  | head h _ ih => exact .epsilon h ih

/-! ### Each word has a path -/

/-- Where a repetition is laid out as a loop, each number of rounds has a path. -/
private theorem spells_of_mem_kstar {L : Language σ} (h : ∀ w ∈ L, net.Spells E s w s) (hw : w ∈ KStar.kstar L) :
    net.Spells E s w s := by
  obtain ⟨rounds, rfl, hrounds⟩ := Language.mem_kstar.1 hw
  clear hw
  induction rounds with
  | nil => exact .refl s
  | cons v rounds ih =>
    obtain ⟨hv, hrounds⟩ := List.forall_mem_cons.1 hrounds
    exact (h v hv).trans (ih hrounds)

/-- Between two states a pattern is laid out together with a path for each of its words. -/
theorem Spans.spells (h : net.Spans p s t) (hw : w ∈ words Label.Accepts E p) : net.Spells E s w t := by
  induction h generalizing w with
  | empty hg =>
    rw [words, Language.mem_one] at hw
    exact hw ▸ hg.spells
  | atom hs h ht =>
    obtain ⟨x, hx, rfl⟩ := mem_words_atom.1 hw
    exact hs.spells.trans (.consume h hx ht.spells)
  | ref hs h ht =>
    rw [words] at hw
    have hcall := hs.spells.trans (.call h hw ht.spells)
    rwa [List.nil_append, List.append_nil] at hcall
  | nil hg =>
    rw [words, wordsOfSequence, Language.mem_one] at hw
    exact hw ▸ hg.spells
  | cons _ _ ih ihs =>
    rw [words, wordsOfSequence] at hw
    obtain ⟨u, hu, v, hv, rfl⟩ := Language.mem_mul.1 hw
    exact (ih hu).trans (ihs (by rwa [words]))
  | alt _ ih =>
    rw [words, mem_wordsOfAlternatives] at hw
    obtain ⟨p, hp, hw⟩ := hw
    exact ih p hp hw
  | optional hs _ ih =>
    rw [words, Language.mem_add, Language.mem_one] at hw
    rcases hw with rfl | hw
    · exact hs.spells
    · exact ih hw
  | many hs _ ht ih =>
    rw [words] at hw
    have hround := hs.spells.trans ((spells_of_mem_kstar (fun _ h => ih h) hw).trans ht.spells)
    rwa [List.nil_append, List.append_nil] at hround
  | many1 _ _ ht ihs ih =>
    rw [words] at hw
    obtain ⟨u, hu, v, hv, rfl⟩ := Language.mem_mul.1 hw
    have hround := (ihs hu).trans ((spells_of_mem_kstar (fun _ h => ih h) hv).trans ht.spells)
    rwa [List.append_nil] at hround

/-! ### Each path spells a word -/

/-- Labels and references stand for themselves: no rule has a body. -/
def withoutBodies (σ τ : Type) [DecidableEq σ] [SymbolSet τ σ] : RuleSystem (Label σ τ) RuleId σ where
  accepts := Label.Accepts
  body? _ := none

private theorem append_mem_words {F R : Form (Label σ τ) RuleId} (h : (withoutBodies σ τ).Yields F w R)
    (hv : v ∈ wordsOfSequence Label.Accepts E R) : w ++ v ∈ wordsOfSequence Label.Accepts E F :=
  h.append_mem_words (by rintro _ _ _ ⟨⟩) hv

/-- In a network of its own the body remains at the start, and nothing at the stop. -/
private theorem Bodiless.exists_account (h : net.Bodiless rule info) (p : ResolvedPattern σ τ) :
    ∃ A : Account (withoutBodies σ τ) ((net.blank rule).layOutRule rule p),
      A.rest info.start = [p] ∧ A.rest info.stop = [] := by
  have howner : ∀ {s}, net.owner? s = some rule → (net.blank rule).owner? s = some rule :=
    fun hs => owner?_blank (lt_size_of_owner? hs)
  obtain ⟨A, hstart, hstop⟩ : ∃ A : Account (withoutBodies σ τ) (net.blank rule),
      A.Stands rule info.start [p] ∧ A.Stands rule info.stop [] := by
    refine ⟨⟨fun s => if s = info.start then [p] else [], fun ht => ?_⟩, ⟨howner h.owner_start, if_pos rfl⟩,
      howner h.owner_stop, if_neg h.start_ne_stop.symm⟩
    rw [transitions_blank] at ht
    cases ht
  have hblank : (net.blank rule).rules[rule]? = some info := h.rules
  obtain ⟨B, hB⟩ := Account.exists_layOutRule (p := p) hblank hstart hstop
  exact ⟨B, (hstart.grow hB).2, (hstop.grow hB).2⟩

/-- A path through the rule spells a word of what remains where it begins. -/
private theorem Bodiless.mem_wordsOfSequence (h : net.Bodiless rule info)
    {A : Account (withoutBodies σ τ) ((net.blank rule).layOutRule rule p)} (hstop : A.rest info.stop = [])
    (hs : net.IsPart info (net.layOutRule rule p) s) (hw : (net.layOutRule rule p).Spells E s w info.stop) :
    w ∈ wordsOfSequence Label.Accepts E (A.rest s) := by
  generalize hu : info.stop = u at hw
  induction hw with
  | refl s =>
    rw [← hu, hstop]
    exact Language.nil_mem_one
  | epsilon ht _ ih =>
    obtain hl | ⟨hb, v, hnext, hv⟩ := h.mem_transitions_of_isPart hs ht
    · cases hl
    · cases hnext
      exact append_mem_words (A.justifies hb).2 (ih hv hu)
  | @consume s t u label x w ht hx _ ih =>
    obtain hl | ⟨hb, v, hnext, hv⟩ := h.mem_transitions_of_isPart hs ht
    · cases hl
    · cases hnext
      refine append_mem_words (w := []) (A.justifies hb).2 ?_
      rw [wordsOfSequence]
      exact Language.append_mem_mul (a := [x]) (mem_words_atom.2 ⟨x, hx, rfl⟩) (ih hv hu)
  | call ht hc _ ih =>
    obtain hl | ⟨hb, v, hnext, hv⟩ := h.mem_transitions_of_isPart hs ht
    · cases hl
    · cases hnext
      refine append_mem_words (w := []) (A.justifies hb).2 ?_
      rw [wordsOfSequence, words]
      exact Language.append_mem_mul hc (ih hv hu)

/-- Once a body is laid out for a rule without one, the paths from its start to its stop spell the words of the body. -/
theorem Bodiless.spells_iff (h : net.Bodiless rule info) (p : ResolvedPattern σ τ) (E : RuleId → Language σ)
    (w : List σ) : (net.layOutRule rule p).Spells E info.start w info.stop ↔ w ∈ words Label.Accepts E p := by
  constructor
  · intro hw
    obtain ⟨A, hstart, hstop⟩ := h.exists_account p
    have hp := h.mem_wordsOfSequence hstop (Or.inl rfl) hw
    rwa [hstart, wordsOfSequence_singleton] at hp
  · exact fun hw => (layOutRule_spans p h.rules (lt_size_of_owner? h.owner_start)).2.spells hw

/-! ### All bodies -/

/-- A path through a rule is not changed by what happens to other rules. -/
private theorem Bodiless.spells_congr (h : net.Bodiless rule info) {net' : Network σ τ}
    (hkeep : ∀ s, (net.layOutRule rule p).owner? s = some rule →
      net'.transitions s = (net.layOutRule rule p).transitions s) :
    net'.Spells E info.start w info.stop ↔ (net.layOutRule rule p).Spells E info.start w info.stop := by
  have hpart : ∀ {s}, net.IsPart info (net.layOutRule rule p) s →
      net'.transitions s = (net.layOutRule rule p).transitions s := fun hs => hkeep _ (h.owner?_of_isPart hs)
  have hnext : ∀ {s t u}, net.IsPart info (net.layOutRule rule p) s → t ∈ (net.layOutRule rule p).transitions s →
      t.next? = some u → net.IsPart info (net.layOutRule rule p) u := by
    intro s t u hs ht hu
    obtain rfl | ⟨-, v, hv, hpart⟩ := h.mem_transitions_of_isPart hs ht
    · cases hu
    · exact Option.some.inj (hv.symm.trans hu) ▸ hpart
  have hpath : ∀ {a b : Network σ τ} {s w u}, (∀ {s}, net.IsPart info (net.layOutRule rule p) s →
      b.transitions s = a.transitions s ∧ a.transitions s = (net.layOutRule rule p).transitions s) →
      a.Spells E s w u → net.IsPart info (net.layOutRule rule p) s → b.Spells E s w u := by
    intro a b s w u hab hw hs
    induction hw with
    | refl s => exact .refl s
    | epsilon ht _ ih => exact .epsilon ((hab hs).1 ▸ ht) (ih (hnext hs ((hab hs).2 ▸ ht) rfl))
    | consume ht hx _ ih => exact .consume ((hab hs).1 ▸ ht) hx (ih (hnext hs ((hab hs).2 ▸ ht) rfl))
    | call ht hv _ ih => exact .call ((hab hs).1 ▸ ht) hv (ih (hnext hs ((hab hs).2 ▸ ht) rfl))
  constructor
  · exact fun hw => hpath (fun hs => ⟨(hpart hs).symm, hpart hs⟩) hw (Or.inl rfl)
  · exact fun hw => hpath (fun hs => ⟨hpart hs, rfl⟩) hw (Or.inl rfl)

/-- Bodies laid out one after the other: the states of other rules are left alone, and the paths through each rule spell
the words of its body. -/
private theorem spells_foldl_layOutRule {l : List (ResolvedPattern σ τ × RuleId)} (hl : (l.map (·.2)).Nodup)
    (net : Network σ τ) (h : ∀ x ∈ l, ∃ info, net.Bodiless x.2 info) :
    (∀ s r, net.owner? s = some r → r ∉ l.map (·.2) →
      (l.foldl (fun net (p, rule) => net.layOutRule rule p) net).transitions s = net.transitions s) ∧
    ∀ p rule info, (p, rule) ∈ l → net.Bodiless rule info →
      ∀ w, (l.foldl (fun net (p, rule) => net.layOutRule rule p) net).Spells E info.start w info.stop ↔
        w ∈ words Label.Accepts E p := by
  induction l generalizing net with
  | nil => simp
  | cons x l ih =>
    obtain ⟨p, rule⟩ := x
    obtain ⟨info, hinfo⟩ := h _ (List.mem_cons_self ..)
    rw [List.map_cons, List.nodup_cons] at hl
    obtain ⟨hnew, hl⟩ := hl
    have hne : ∀ x ∈ l, x.2 ≠ rule := fun x hx he => hnew (List.mem_map.2 ⟨x, hx, he⟩)
    obtain ⟨hkeep, hspells⟩ := ih hl (net.layOutRule rule p) (by
      intro x hx
      obtain ⟨info', h'⟩ := h x (List.mem_cons_of_mem _ hx)
      exact ⟨info', hinfo.layOutRule p h' (hne x hx)⟩)
    rw [List.foldl_cons]
    constructor
    · intro s r hs hr
      rw [List.map_cons, List.mem_cons, not_or] at hr
      have ho : (net.layOutRule rule p).owner? s = some r := by
        rw [(hinfo.growsAt p).owner?, if_neg (fun hnew => Nat.not_le.2 (lt_size_of_owner? hs) hnew.1), hs]
      rw [hkeep s r ho hr.2]
      exact hinfo.transitions_layOutRule p (fun he => hr.1 (Option.some.inj (ho.symm.trans he)))
    · intro q r info' hq h' w
      rcases List.mem_cons.1 hq with hq | hq
      · obtain ⟨rfl, rfl⟩ := Prod.mk.inj hq
        rw [h'.spells_congr (fun s hs => hkeep s _ hs hnew), h'.spells_iff]
      · exact hspells q r info' hq (hinfo.layOutRule p h' (hne _ hq)) w

/-- Where bodies are laid out for declared rules, the paths through each rule spell the words of its body. -/
theorem spells_layOutBodies_iff {names : List String} {bodies : List (ResolvedPattern σ τ)}
    (h : names.length = bodies.length) {i : Nat} (hp : bodies[i]? = some p) :
    (Declarations.layOutBodies (Declarations.declareRules names) bodies).Spells E (2 * i) w (2 * i + 1) ↔
      w ∈ words Label.Accepts E p := by
  have hd : (Declarations.declareRules names : Network σ τ).Declares names := declares_declareRules names
  have hbodiless : ∀ {j : Nat}, j < bodies.length → ∃ name,
      (Declarations.declareRules names : Network σ τ).Bodiless j ⟨name, 2 * j, 2 * j + 1⟩ :=
    fun hj => ⟨_, hd.bodiless (h ▸ hj)⟩
  have hnodup : (bodies.zipIdx.map (·.2)).Nodup := by
    rw [List.zipIdx_map_snd]
    exact List.nodup_range'
  obtain ⟨-, hspells⟩ := spells_foldl_layOutRule (E := E) hnodup (Declarations.declareRules names) (by
    intro x hx
    obtain ⟨name, hname⟩ := hbodiless (List.getElem?_eq_some_iff.1 (List.mem_zipIdx_iff_getElem?.1 hx)).1
    exact ⟨_, hname⟩)
  obtain ⟨name, hname⟩ := hbodiless (List.getElem?_eq_some_iff.1 hp).1
  exact hspells p i _ (List.mem_zipIdx_iff_getElem?.2 hp) hname w

end Typeahead.Network
