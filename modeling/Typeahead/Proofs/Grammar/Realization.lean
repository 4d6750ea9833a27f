import Typeahead.Grammar.Declarations
import Typeahead.Proofs.Grammar.Account
import Typeahead.Proofs.Grammar.Beginnings
import Typeahead.Proofs.Grammar.Spans
import Typeahead.Proofs.Network.LeftCalls

/-!
# Networks realize their rules

The network that is laid out for the bodies of some rules reads from the start of a rule exactly what the rule yields
(`realizes_layOutBodies`): the words that can be read are those that are viable, a rule is left exactly after the words
it derives, and a symbol can be consumed exactly after the words with an atom next.
-/

namespace Typeahead

open RuleSystem

namespace Network

variable {σ τ : Type} {net : Network σ τ}

/-- The state at which the outermost rule is or goes on. -/
def outermost (c : Configuration) : StateId := (c.stack.map (·.follow)).getLast?.getD c.state

private theorem owner?_outermost_movedTo {c : Configuration} {target : StateId}
    (h : net.owner? target = net.owner? c.state) :
    net.owner? (outermost (c.movedTo target)) = net.owner? (outermost c) := by
  unfold outermost Configuration.movedTo
  cases (c.stack.map (·.follow)).getLast? with
  | none => exact h
  | some s => rfl

variable [DecidableEq σ] [SymbolSet τ σ] {bodies : List (ResolvedPattern σ τ)}

/-- From the start of each of its rules, a network reads what the rule yields in the system. -/
structure Realizes (net : Network σ τ) (G : RuleSystem (Label σ τ) RuleId σ) : Prop where
  reads_iff : ∀ {rule start w}, net.start? rule = some start →
    ((∃ c, net.Reads (.initial start) w c) ↔ G.Viable [.ref rule] w)
  consumes_iff : ∀ {rule start w}, net.start? rule = some start →
    ((∃ m c, net.Reads (.initial start) w m ∧ net.Reaches m c ∧ net.CanConsume c.state) ↔ G.Live [.ref rule] w)
  finishes_iff : ∀ {rule start w}, net.start? rule = some start →
    ((∃ m c, net.Reads (.initial start) w m ∧ net.Reaches m c ∧ net.CanFinish c) ↔ G.Derives [.ref rule] w)
  owner? : ∀ {rule start w m c}, net.start? rule = some start → net.Reads (.initial start) w m → net.Reaches m c →
    net.CanFinish c → net.owner? c.state = some rule

/-! ### No more than the rules allow -/

namespace Account

/-- What remains in a configuration: what remains at its state, then where each open invocation goes on. -/
def remaining (A : Account (ofBodies bodies) net) (c : Configuration) : Form (Label σ τ) RuleId :=
  A.rest c.state ++ c.stack.flatMap fun frame => A.rest frame.follow

/-- Each rule starts with its body remaining. -/
def Starts (A : Account (ofBodies bodies) net) : Prop :=
  ∀ {rule start}, net.start? rule = some start → ∃ p, bodies[rule]? = some p ∧ A.Stands rule start [p]

/-- On the way between two configurations the remaining form yields the word, and the outermost rule is kept. -/
def Follows (A : Account (ofBodies bodies) net) (c : Configuration) (w : List σ) (c' : Configuration) : Prop :=
  (ofBodies bodies).Yields (A.remaining c) w (A.remaining c') ∧
    net.owner? (outermost c') = net.owner? (outermost c)

variable {A : Account (ofBodies bodies) net} {c c' c'' : Configuration} {x : σ} {u v w : List σ}

theorem Follows.refl (A : Account (ofBodies bodies) net) (c : Configuration) : A.Follows c [] c := ⟨.refl _, rfl⟩

theorem Follows.trans (h : A.Follows c u c') (h' : A.Follows c' v c'') : A.Follows c (u ++ v) c'' :=
  ⟨h.1.trans h'.1, h'.2.trans h.2⟩

theorem follows_of_move (hA : A.Starts) (h : net.Move c c') : A.Follows c [] c' := by
  cases h with
  | epsilon h =>
    obtain ⟨ho, hy⟩ := A.justifies h
    exact ⟨hy.append_right _, owner?_outermost_movedTo ho⟩
  | call h hs =>
    -- the reference in front is expanded to the body that remains at the start of the called rule
    obtain ⟨p, hp, -, hrest⟩ := hA hs
    obtain ⟨ho, hy⟩ := A.justifies h
    constructor
    · have hcall := (hy.append_right (c.stack.flatMap fun frame => A.rest frame.follow)).trans
        (.expand (.ref hp) (.refl _))
      simpa [remaining, hrest, CallStack.push] using hcall
    · rw [← owner?_outermost_movedTo ho]
      unfold outermost Configuration.movedTo CallStack.push
      rw [List.map_cons, List.getLast?_cons]
      rfl
  | leave h hs =>
    obtain ⟨s, stack⟩ := c
    cases stack with
    | nil => cases hs
    | cons frame rest =>
      obtain ⟨rfl, rfl⟩ := Prod.mk.inj (Option.some.inj hs)
      have hy : (ofBodies bodies).Yields (A.rest s) [] [] := A.justifies h
      refine ⟨?_, ?_⟩
      · simpa [remaining] using hy.append_right (A.remaining ⟨frame.follow, rest⟩)
      · unfold outermost
        rw [List.map_cons, List.getLast?_cons]
        rfl

theorem follows_of_reaches (hA : A.Starts) (h : net.Reaches c c') : A.Follows c [] c' := by
  induction h with
  | refl => exact .refl A c
  | tail _ h ih => exact ih.trans (follows_of_move hA h)

theorem follows_of_consumes (h : net.Consumes c x c') : A.Follows c [x] c' := by
  cases h with
  | mk h hx =>
    obtain ⟨ho, hy⟩ := A.justifies h
    exact ⟨(hy.trans (.emit hx (.refl _))).append_right _, owner?_outermost_movedTo ho⟩

theorem follows_of_reads (hA : A.Starts) (h : net.Reads c w c') : A.Follows c w c' := by
  induction h with
  | nil c => exact .refl A c
  | cons hm hx _ ih => exact (follows_of_reaches hA hm).trans ((follows_of_consumes hx).trans ih)

theorem Starts.remaining_initial (hA : A.Starts) {rule : RuleId} {start : StateId}
    (h : net.start? rule = some start) :
    (ofBodies bodies).Yields [.ref rule] [] (A.remaining (.initial start)) := by
  obtain ⟨p, hp, -, hrest⟩ := hA h
  unfold remaining Configuration.initial
  rw [hrest]
  exact (Expands.ref hp).yields

/-- What is read from the start of a rule is yielded by the rule, which stays the outermost one. -/
private theorem Starts.yields_of_reads (hA : A.Starts) {rule : RuleId} {start : StateId}
    (hs : net.start? rule = some start) (hr : net.Reads (.initial start) w c) (hm : net.Reaches c c') :
    (ofBodies bodies).Yields [.ref rule] w (A.remaining c') ∧ net.owner? (outermost c') = some rule := by
  obtain ⟨hy, ho⟩ := (follows_of_reads hA hr).trans (follows_of_reaches hA hm)
  rw [List.append_nil] at hy
  obtain ⟨p, -, hstart, -⟩ := hA hs
  exact ⟨(hA.remaining_initial hs).trans hy, ho.trans hstart⟩

/-- Where the outermost rule can be left, nothing has to remain. -/
private theorem yields_of_canFinish (A : Account (ofBodies bodies) net) (h : net.CanFinish c) :
    (ofBodies bodies).Yields (A.remaining c) [] [] := by
  obtain ⟨s, stack⟩ := c
  obtain ⟨rfl, hleave⟩ := h
  have hy : (ofBodies bodies).Yields (A.rest s) [] [] := A.justifies hleave
  simpa [remaining] using hy

/-- Where a symbol can be consumed, an atom comes first. -/
private theorem exists_yields_of_canConsume (A : Account (ofBodies bodies) net) (h : net.CanConsume c.state) :
    ∃ label R, (ofBodies bodies).Yields (A.remaining c) [] (.atom label :: R) := by
  obtain ⟨label, target, hx⟩ := h
  obtain ⟨-, hy⟩ := A.justifies hx
  have hstack := hy.append_right (c.stack.flatMap fun frame => A.rest frame.follow)
  rw [List.cons_append] at hstack
  exact ⟨label, _, hstack⟩

end Account

/-- What the body of a rule yields is read from the start of the rule. -/
private theorem Hosts.exists_reads (hn : net.Hosts bodies) {rule : RuleId} {start : StateId}
    {p : ResolvedPattern σ τ} {R : Form (Label σ τ) RuleId} {w : List σ} (hs : net.start? rule = some start)
    (hp : bodies[rule]? = some p) (hy : (ofBodies bodies).Yields [p] w R) :
    ∃ m c, net.Reads (.initial start) w m ∧ net.Reaches m c ∧ net.Represents c R := by
  obtain ⟨start', stop, hs', hspans, hleave⟩ := hn hp
  obtain rfl := Option.some.inj (hs.symm.trans hs')
  exact Represents.exists_reads hn (.cons hspans (.finish .refl hleave)) hy

/-- A network with an account that hosts all bodies realizes them. -/
theorem realizes_of_account {A : Account (ofBodies bodies) net} (hA : A.Starts) (hn : net.Hosts bodies) :
    net.Realizes (ofBodies bodies) := by
  -- in each part the account gives one direction, and the bodies that are laid out give the other
  refine ⟨?_, ?_, ?_, ?_⟩
  · intro rule start w hs
    constructor
    · rintro ⟨c, hr⟩
      exact ⟨_, (hA.yields_of_reads hs hr .refl).1⟩
    · intro h
      rcases viable_ref_iff.1 h with rfl | ⟨p, hp, R, hy⟩
      · exact ⟨_, .nil _⟩
      · obtain ⟨m, c, hr, -⟩ := hn.exists_reads hs hp hy
        exact ⟨m, hr⟩
  · intro rule start w hs
    constructor
    · rintro ⟨m, c, hr, hm, hx⟩
      obtain ⟨label, R, hlabel⟩ := A.exists_yields_of_canConsume hx
      have hy := (hA.yields_of_reads hs hr hm).1.trans hlabel
      rw [List.append_nil] at hy
      exact ⟨label, R, hy⟩
    · rintro ⟨label, R, hy⟩
      cases hy with
      | expand he hy =>
        cases he with
        | ref hp =>
          obtain ⟨m, c, hr, hm, hrep⟩ := hn.exists_reads hs hp hy
          obtain ⟨c', target, hm', hx, -⟩ := hrep.exists_consume
          exact ⟨m, c', hr, hm.trans hm', label, target, hx⟩
  · intro rule start w hs
    constructor
    · rintro ⟨m, c, hr, hm, hf⟩
      have hy := (hA.yields_of_reads hs hr hm).1.trans (A.yields_of_canFinish hf)
      rwa [List.append_nil] at hy
    · intro h
      obtain ⟨p, hp, hy⟩ := derives_ref_iff.1 h
      obtain ⟨m, c, hr, hm, hrep⟩ := hn.exists_reads hs hp hy
      obtain ⟨c', hm', hf⟩ := hrep.exists_canFinish
      exact ⟨m, c', hr, hm.trans hm', hf⟩
  · intro rule start w m c hs hr hm hf
    have ho := (hA.yields_of_reads hs hr hm).2
    unfold outermost at ho
    rwa [hf.1] at ho

/-! ### Laying out the bodies of declared rules -/

/-- Bodies laid out one after the other keep the account and the bodies before them. -/
private theorem exists_foldl_layOutRule {l : List (ResolvedPattern σ τ × RuleId)} {net : Network σ τ}
    {A : Account (ofBodies bodies) net}
    (h : ∀ p rule, (p, rule) ∈ l → ∃ info, net.rules[rule]? = some info ∧ A.Stands rule info.start [p] ∧
      A.Stands rule info.stop []) :
    ∃ B : Account (ofBodies bodies) (l.foldl (fun net (p, rule) => net.layOutRule rule p) net), A.Grows B ∧
      net.Extends (l.foldl (fun net (p, rule) => net.layOutRule rule p) net) ∧
      ∀ p rule info, (p, rule) ∈ l → net.rules[rule]? = some info →
        (l.foldl (fun net (p, rule) => net.layOutRule rule p) net).Spans p info.start info.stop := by
  -- the end points keep their account when other bodies are laid out, so `h` holds for the rest
  induction l generalizing net with
  | nil => exact ⟨A, .refl A, .refl net, by simp⟩
  | cons pr l ih =>
    obtain ⟨p, rule⟩ := pr
    obtain ⟨info, hinfo, hstart, hstop⟩ := h p rule (List.mem_cons_self ..)
    obtain ⟨B, hB⟩ := Account.exists_layOutRule hinfo hstart hstop
    obtain ⟨he, hp⟩ := layOutRule_spans p hinfo (lt_size_of_owner? hstart.1)
    obtain ⟨C, hC, he', hps⟩ := ih (A := B) (by
      intro q r hq
      obtain ⟨info', hinfo', hstart', hstop'⟩ := h q r (List.mem_cons_of_mem _ hq)
      exact ⟨info', by rw [he.rules, hinfo'], hstart'.grow hB, hstop'.grow hB⟩)
    refine ⟨C, hB.trans hC, he.trans he', ?_⟩
    intro q r info' hq hinfo'
    rcases List.mem_cons.1 hq with hq | hq
    · obtain ⟨rfl, rfl⟩ := Prod.mk.inj hq
      obtain rfl := Option.some.inj (hinfo.symm.trans hinfo')
      exact hp.mono he'
    · exact hps q r info' hq (by rw [he.rules, hinfo'])

/-- Before the bodies are laid out, each body remains at the start of its rule and nothing at the stop. -/
private theorem Declares.exists_account {names : List String} (h : net.Declares names)
    (bodies : List (ResolvedPattern σ τ)) :
    ∃ A : Account (ofBodies bodies) net, ∀ i < names.length,
      A.Stands i (2 * i) bodies[i]?.toList ∧ A.Stands i (2 * i + 1) [] := by
  -- states come in pairs, the start and the stop of a rule, and only the stops have transitions
  refine ⟨⟨fun s => if s % 2 = 0 then bodies[s / 2]?.toList else [], ?_⟩, ?_⟩
  · intro s t ht
    obtain ⟨-, hodd, rfl⟩ := (h.mem_transitions s t).1 ht
    have hs : (if s % 2 = 0 then bodies[s / 2]?.toList else []) = [] := if_neg (by rw [hodd]; decide)
    show (ofBodies bodies).Yields (if s % 2 = 0 then bodies[s / 2]?.toList else []) [] []
    rw [hs]
    exact .refl []
  · intro i hi
    refine ⟨⟨?_, ?_⟩, ?_, ?_⟩
    · rw [h.owner? _ (by omega), Nat.mul_div_cancel_left i Nat.two_pos]
    · show (if 2 * i % 2 = 0 then _ else _) = _
      rw [if_pos (by omega), Nat.mul_div_cancel_left i Nat.two_pos]
    · rw [h.owner? _ (by omega)]
      exact congrArg some (show (2 * i + 1) / 2 = i by omega)
    · exact if_neg (show ¬ (2 * i + 1) % 2 = 0 by omega)

/-- Laying out the bodies of declared rules keeps the account and the rules, and puts each body between the end points
of its rule. -/
private theorem exists_layOutBodies {names : List String} (h : names.length = bodies.length) :
    (∃ A : Account (ofBodies bodies) (Declarations.layOutBodies (Declarations.declareRules names) bodies),
      ∀ {i : Nat} {p}, bodies[i]? = some p → A.Stands i (2 * i) [p]) ∧
    (Declarations.declareRules names : Network σ τ).Extends
      (Declarations.layOutBodies (Declarations.declareRules names) bodies) ∧
    ∀ {i : Nat} {p}, bodies[i]? = some p →
      (Declarations.layOutBodies (Declarations.declareRules names) bodies).Spans p (2 * i) (2 * i + 1) := by
  have hd : (Declarations.declareRules names : Network σ τ).Declares names := declares_declareRules names
  obtain ⟨A, hA⟩ := hd.exists_account bodies
  have hrule : ∀ {i : Nat} {p}, bodies[i]? = some p →
      ∃ name, (Declarations.declareRules names : Network σ τ).rules[i]? = some ⟨name, 2 * i, 2 * i + 1⟩ ∧
        A.Stands i (2 * i) [p] ∧ A.Stands i (2 * i + 1) [] := by
    intro i p hp
    have hi : i < names.length := by
      rw [h]
      exact (List.getElem?_eq_some_iff.1 hp).1
    obtain ⟨hstart, hstop⟩ := hA i hi
    rw [hp] at hstart
    exact ⟨names[i], by rw [hd.rules, List.getElem?_eq_getElem hi]; rfl, hstart, hstop⟩
  obtain ⟨B, hB, he, hs⟩ := exists_foldl_layOutRule (l := bodies.zipIdx) (A := A) (by
    intro p rule hp
    obtain ⟨name, hname, hstands⟩ := hrule (List.mem_zipIdx_iff_getElem?.1 hp)
    exact ⟨_, hname, hstands⟩)
  refine ⟨⟨B, fun hp => ?_⟩, he, fun hp => ?_⟩
  · obtain ⟨name, -, hstart, -⟩ := hrule hp
    exact hstart.grow hB
  · obtain ⟨name, hname, -⟩ := hrule hp
    exact hs _ _ _ (List.mem_zipIdx_iff_getElem?.2 hp) hname

/-- The start states are those of the declared rules. -/
theorem start?_layOutBodies {names : List String} (h : names.length = bodies.length) (rule : Nat) :
    (Declarations.layOutBodies (Declarations.declareRules names) bodies).start? rule =
      if rule < names.length then some (2 * rule) else none := by
  obtain ⟨-, he, -⟩ := exists_layOutBodies h
  unfold start?
  rw [he.rules, (declares_declareRules names).rules]
  by_cases hr : rule < names.length
  · rw [List.getElem?_eq_getElem hr, if_pos hr]
    rfl
  · rw [List.getElem?_eq_none (Nat.not_lt.1 hr), if_neg hr]
    rfl

/-- The network laid out for the bodies of declared rules has an account in which each rule starts with its body. -/
private theorem exists_starts {names : List String} (h : names.length = bodies.length) :
    ∃ A : Account (ofBodies bodies) (Declarations.layOutBodies (Declarations.declareRules names) bodies), A.Starts := by
  obtain ⟨⟨A, hA⟩, -, -⟩ := exists_layOutBodies h
  refine ⟨A, ?_⟩
  intro (rule : Nat) start hstart
  rw [start?_layOutBodies h] at hstart
  split at hstart
  · rename_i hr
    cases hstart
    rw [h] at hr
    exact ⟨bodies[rule], List.getElem?_eq_getElem hr, hA (List.getElem?_eq_getElem hr)⟩
  · cases hstart

/-- The network laid out for the bodies of declared rules realizes the bodies. -/
theorem realizes_layOutBodies {names : List String} (h : names.length = bodies.length) :
    (Declarations.layOutBodies (Declarations.declareRules names) bodies).Realizes (ofBodies bodies) := by
  obtain ⟨A, hA⟩ := exists_starts h
  obtain ⟨-, he, hs⟩ := exists_layOutBodies h
  apply realizes_of_account hA
  intro (rule : Nat) p hp
  have hr : rule < names.length := by
    rw [h]
    exact (List.getElem?_eq_some_iff.1 hp).1
  refine ⟨2 * rule, 2 * rule + 1, ?_, hs hp, ?_⟩
  · rw [start?_layOutBodies h, if_pos hr]
  · refine he.mem_transitions (((declares_declareRules names).mem_transitions _ _).2 ⟨?_, ?_, rfl⟩)
    · show 2 * rule + 1 < 2 * names.length
      omega
    · omega

/-- If a rule left-calls another one in the network, the body of the rule begins with a reference to the other one. -/
theorem begins_of_leftCalls {names : List String} (h : names.length = bodies.length) {caller callee : RuleId}
    (hl : (Declarations.layOutBodies (Declarations.declareRules names) bodies).LeftCalls caller callee) :
    ∃ p, bodies[caller]? = some p ∧ (ofBodies bodies).Begins [p] callee := by
  obtain ⟨A, hA⟩ := exists_starts h
  obtain ⟨start, s, follow, hstart, hs, ht⟩ := hl
  obtain ⟨p, hp, -, hrest⟩ := hA hstart
  have hreach := (Account.follows_of_reaches hA hs).1
  simp only [Account.remaining, Configuration.initial, List.flatMap_nil, List.append_nil, hrest] at hreach
  obtain ⟨-, hcall⟩ := A.justifies ht
  exact ⟨p, hp, _, hreach.trans hcall⟩

end Network

end Typeahead
