import Typeahead.Grammar.Pattern
import Typeahead.Proofs.Network.EmptyRuns

/-!
# What a rule can begin with

A network is a context-free grammar: a rule stands for its start state, and a state stands for what is read from it to
the end of its rule (`Rewrites`).  A closure from the start of a rule prunes calls, yet it answers exactly whether the
rule derives the empty word and with which symbols it can begin (`closure_from_start_exact`).  Of the open invocations
that lead to a state, those between two of the same rule can be cut out (`Nested.exists_distinct`), and a state within
distinct open invocations is found by a search that may open each rule twice: once for the open invocations, once for
the empty runs between them (`searches_of_nested`).
-/

namespace Typeahead.Network

open Relation

/-- A part of a sentential form. -/
inductive FormPart (σ : Type) where
  /-- What a rule derives. -/
  | rule (rule : RuleId)
  /-- What is read from a state to the end of its rule. -/
  | rest (state : StateId)
  | symbol (x : σ)

variable {σ τ : Type} {net : Network σ τ}

/-- Expanding the leftmost part of a sentential form. -/
inductive Rewrites [DecidableEq σ] [SymbolSet τ σ] (net : Network σ τ) :
    List (FormPart σ) → List (FormPart σ) → Prop where
  | start {rule : RuleId} {s : StateId} {form : List (FormPart σ)} (hs : net.start? rule = some s) :
    Rewrites net (.rule rule :: form) (.rest s :: form)
  | epsilon {s t : StateId} {form : List (FormPart σ)} (h : .epsilon t ∈ net.transitions s) :
    Rewrites net (.rest s :: form) (.rest t :: form)
  | consume {s t : StateId} {label : Label σ τ} {x : σ} {form : List (FormPart σ)}
    (h : .consume label t ∈ net.transitions s) (hx : label.accepts x = true) :
    Rewrites net (.rest s :: form) (.symbol x :: .rest t :: form)
  | call {s follow : StateId} {rule : RuleId} {form : List (FormPart σ)} (h : .call rule follow ∈ net.transitions s) :
    Rewrites net (.rest s :: form) (.rule rule :: .rest follow :: form)
  | leave {s : StateId} {form : List (FormPart σ)} (h : .leave ∈ net.transitions s) :
    Rewrites net (.rest s :: form) form

/-- The rule derives the empty word. -/
def DerivesEmpty [DecidableEq σ] [SymbolSet τ σ] (net : Network σ τ) (rule : RuleId) : Prop :=
  ReflTransGen net.Rewrites [.rule rule] []

/-- Some leftmost expansion of the rule begins with the symbol. -/
def CanBeginWith [DecidableEq σ] [SymbolSet τ σ] (net : Network σ τ) (rule : RuleId) (x : σ) : Prop :=
  ∃ form, ReflTransGen net.Rewrites [.rule rule] (.symbol x :: form)

/-! ### Sentential forms and configurations -/

section Forms

/-- What is left to be read where the open invocations go on. -/
private def behind (σ : Type) (stack : CallStack) : List (FormPart σ) := stack.map fun frame => .rest frame.follow

variable [DecidableEq σ] [SymbolSet τ σ]

/-- Moving on is rewriting what is left to be read. -/
private theorem rewrites_of_move {c c' : Configuration} (h : net.Move c c') :
    ReflTransGen net.Rewrites (.rest c.state :: behind σ c.stack) (.rest c'.state :: behind σ c'.stack) := by
  cases h with
  | epsilon h => exact .single (.epsilon h)
  | call h hs => exact .head (.call h) (.single (.start hs))
  | leave h hpop =>
    obtain ⟨s, stack⟩ := c
    cases stack with
    | nil => cases hpop
    | cons frame below =>
      cases hpop
      exact .single (.leave h)

private theorem rewrites_of_reaches {c c' : Configuration} (h : net.Reaches c c') :
    ReflTransGen net.Rewrites (.rest c.state :: behind σ c.stack) (.rest c'.state :: behind σ c'.stack) := by
  induction h with
  | refl => exact .refl
  | tail _ hm ih => exact ih.trans (rewrites_of_move hm)

/-- Where a run from the start of `rule` stands when it has been rewritten to a sentential form. -/
private def Accords (net : Network σ τ) (rule : RuleId) (origin : StateId) : List (FormPart σ) → Prop
  | [] => ∃ c, net.Reaches (.initial origin) c ∧ net.CanFinish c
  | .rest s :: form => ∃ stack, net.Reaches (.initial origin) ⟨s, stack⟩ ∧ form = behind σ stack
  | .rule callee :: form => callee = rule ∧ form = [] ∨
      ∃ s follow stack, net.Reaches (.initial origin) ⟨s, stack⟩ ∧ .call callee follow ∈ net.transitions s ∧
        form = .rest follow :: behind σ stack
  | .symbol x :: _ => ∃ c c', net.Reaches (.initial origin) c ∧ net.Consumes c x c'

/-- Each expansion is a move, or the end of the run. -/
private theorem Accords.rewrites {rule : RuleId} {origin : StateId} (horigin : net.start? rule = some origin)
    {F F' : List (FormPart σ)} (h : net.Accords rule origin F) (hstep : net.Rewrites F F') :
    net.Accords rule origin F' := by
  cases hstep with
  | start hs =>
    rcases h with ⟨rfl, rfl⟩ | ⟨caller, follow, stack, hm, hcall, rfl⟩
    · obtain rfl := Option.some.inj (horigin.symm.trans hs)
      exact ⟨[], .refl, rfl⟩
    · exact ⟨_, hm.tail (.call hcall hs), rfl⟩
  | epsilon ht =>
    obtain ⟨stack, hm, rfl⟩ := h
    exact ⟨stack, hm.tail (.epsilon ht), rfl⟩
  | consume ht hx =>
    obtain ⟨stack, hm, rfl⟩ := h
    exact ⟨_, _, hm, .mk ht hx⟩
  | call ht =>
    obtain ⟨stack, hm, rfl⟩ := h
    exact Or.inr ⟨_, _, stack, hm, ht, rfl⟩
  | leave ht =>
    obtain ⟨stack, hm, rfl⟩ := h
    cases stack with
    | nil => exact ⟨_, hm, rfl, ht⟩
    | cons frame below => exact ⟨below, hm.tail (.leave ht rfl), rfl⟩

private theorem accords_of_rewrites {rule : RuleId} {origin : StateId} (horigin : net.start? rule = some origin)
    {F : List (FormPart σ)} (h : ReflTransGen net.Rewrites [.rule rule] F) : net.Accords rule origin F := by
  induction h with
  | refl => exact Or.inl ⟨rfl, rfl⟩
  | tail _ hstep ih => exact ih.rewrites horigin hstep

variable {rule : RuleId} {origin : StateId}

/-- A rule derives the empty word if its end can be reached without consuming a symbol. -/
theorem derivesEmpty_iff (horigin : net.start? rule = some origin) :
    net.DerivesEmpty rule ↔ ∃ c, net.Reaches (.initial origin) c ∧ net.CanFinish c := by
  constructor
  · intro h
    exact accords_of_rewrites horigin h
  · rintro ⟨⟨s, stack⟩, hm, rfl, hl⟩
    exact (ReflTransGen.head (.start horigin) (rewrites_of_reaches hm)).tail (.leave hl)

/-- A rule can begin with a symbol if the symbol can be the first one consumed. -/
theorem canBeginWith_iff (horigin : net.start? rule = some origin) {x : σ} :
    net.CanBeginWith rule x ↔ ∃ c c', net.Reaches (.initial origin) c ∧ net.Consumes c x c' := by
  constructor
  · rintro ⟨form, h⟩
    exact accords_of_rewrites horigin h
  · rintro ⟨c, c', hm, hx⟩
    cases hx with
    | mk ht hx =>
      have hrun : ReflTransGen net.Rewrites [.rule rule] (.rest c.state :: behind σ c.stack) :=
        .head (.start horigin) (rewrites_of_reaches hm)
      exact ⟨_, hrun.tail (.consume ht hx)⟩

end Forms

/-! ### Cutting out repeated invocations -/

variable {depth : Nat} {origin s : StateId} {stack : CallStack}

/-- The outer invocations were opened on the way. -/
private theorem Nested.exists_below {above below : CallStack} (h : net.Nested depth origin s (above ++ below)) :
    ∃ s', net.Nested depth origin s' below := by
  induction above generalizing s with
  | nil => exact ⟨s, h⟩
  | cons frame above ih =>
    cases h with
    | cons h _ _ _ => exact ih h

/-- A state within open invocations is also a state within open invocations of distinct rules: where a rule is open
twice, the inner invocation takes the place of the outer one. -/
theorem Nested.exists_distinct (h : net.Nested depth origin s stack) :
    ∃ stack', net.Nested depth origin s stack' ∧ (stack'.map (·.rule)).Nodup := by
  induction h with
  | nil hs => exact ⟨[], .nil hs, List.nodup_nil⟩
  | @cons s caller start frame below _ hcall hstart hs ih =>
    obtain ⟨below', hbelow, hnodup⟩ := ih
    by_cases hmem : frame.rule ∈ below'.map (·.rule)
    · obtain ⟨outer, houter, hrule⟩ := List.mem_map.1 hmem
      obtain ⟨above, lower, rfl⟩ := List.append_of_mem houter
      obtain ⟨s', houter⟩ := hbelow.exists_below
      cases houter with
      | cons hlower hcall' _ _ =>
        refine ⟨outer :: lower, .cons hlower hcall' (hrule ▸ hstart) hs, ?_⟩
        rw [List.map_append] at hnodup
        exact (List.nodup_append.1 hnodup).2.1
    · exact ⟨frame :: below', .cons hbelow hcall hstart hs, List.nodup_cons.2 ⟨hmem, hnodup⟩⟩

private theorem countP_rule_le_one (h : (stack.map (·.rule)).Nodup) (rule : RuleId) :
    stack.countP (·.rule = rule) ≤ 1 := by
  have hcount := List.nodup_iff_count_le_one.1 h rule
  rw [List.count_eq_countP, List.countP_map] at hcount
  exact hcount

/-- A search that may open each rule twice finds whatever lies within open invocations of distinct rules. -/
theorem searches_of_nested {reentry : Nat} (hr : 2 ≤ reentry) (h : net.Nested depth origin s stack)
    (hnodup : (stack.map (·.rule)).Nodup) :
    ReflTransGen (net.Searches reentry) (.initial origin) ⟨s, stack⟩ := by
  induction h with
  | nil hs => exact searches_of_passes [] hs fun _ _ => Nat.lt_of_lt_of_le Nat.zero_lt_two hr
  | @cons s caller start frame below _ hcall hstart hs ih =>
    obtain ⟨hnew, hbelow⟩ := List.nodup_cons.1 hnodup
    have hclosed : below.countP (·.rule = frame.rule) = 0 := by
      rw [List.countP_eq_zero]
      intro outer houter hrule
      exact hnew (List.mem_map.2 ⟨outer, houter, of_decide_eq_true hrule⟩)
    have hopen : net.Searches reentry ⟨caller, below⟩ ⟨start, frame :: below⟩ :=
      searches_call hcall hstart (by omega)
    refine ((ih hbelow).tail hopen).trans (searches_of_passes _ hs fun rule _ => ?_)
    exact Nat.lt_of_le_of_lt (countP_rule_le_one hnodup rule) hr

variable {limits : Limits}

/-- Each state that can be reached is found, though maybe within fewer open invocations. -/
theorem exists_mem_visited_of_reaches (hr : 2 ≤ limits.reentry)
    (hb : (net.closure limits [.initial origin]).bound = none) {c : Configuration}
    (h : net.Reaches (.initial origin) c) :
    ∃ c' ∈ (net.closure limits [.initial origin]).visited, c'.state = c.state := by
  obtain ⟨depth, hnested⟩ := exists_nested_of_reaches h
  obtain ⟨stack, hnested, hnodup⟩ := hnested.exists_distinct
  exact ⟨_, mem_visited_of_searches hb (searches_of_nested hr hnested hnodup), rfl⟩

/-! ### The answer of a closure -/

variable [DecidableEq σ] [SymbolSet τ σ]

/-- A closure from the start of a rule that is not cut short tells exactly whether the rule derives the empty word if
each rule may be opened once, and with which symbols the rule can begin if each may be opened twice.  It does so for all
rules, left-recursive ones included, and whatever calls are pruned. -/
theorem closure_from_start_exact {rule : RuleId} (horigin : net.start? rule = some origin)
    (hb : (net.closure limits [.initial origin]).bound = none) :
    (1 ≤ limits.reentry →
      ((net.closure limits [.initial origin]).completed ≠ [] ↔ net.DerivesEmpty rule)) ∧
    (2 ≤ limits.reentry → ∀ x,
      ((∃ c ∈ (net.closure limits [.initial origin]).frontier, ∃ label target,
          .consume label target ∈ net.transitions c.state ∧ label.accepts x = true) ↔ net.CanBeginWith rule x)) := by
  constructor
  · intro hr
    rw [derivesEmpty_iff horigin, ← acceptsEnd_closure_initial_iff hr hb, Closure.acceptsEnd]
    simp
  · intro hr x
    rw [canBeginWith_iff horigin]
    constructor
    · rintro ⟨c, hc, label, target, ht, hx⟩
      obtain ⟨seed, hseed, hm⟩ := reachable_of_mem_visited (mem_frontier_iff.1 hc).1
      rw [List.mem_singleton] at hseed
      exact ⟨c, _, hseed ▸ hm, .mk ht hx⟩
    · rintro ⟨c, c', hm, hx⟩
      cases hx with
      | mk ht hx =>
        obtain ⟨found, hfound, hstate⟩ := exists_mem_visited_of_reaches hr hb hm
        rw [← hstate] at ht
        exact ⟨found, mem_frontier_iff.2 ⟨hfound, _, _, ht⟩, _, _, ht, hx⟩

/-- Two rules that begin with each other.  The second can be empty; the first ends with a symbol. -/
def mutualRules : Network TokenKind (List TokenKind) :=
  { states := #[⟨0, 0, .ruleStart, [.call 1 2]⟩, ⟨1, 0, .ruleStop, [.leave]⟩,
      ⟨2, 0, .basic, [.consume (.symbol 7) 1]⟩, ⟨3, 1, .ruleStart, [.call 0 4, .epsilon 4]⟩,
      ⟨4, 1, .ruleStop, [.leave]⟩]
    rules := #[⟨"first", 0, 1⟩, ⟨"second", 3, 4⟩] }

/-- Calls are pruned, and still the closure knows that the first rule cannot be empty and begins with its symbol. -/
theorem closure_mutualRules :
    0 < (mutualRules.closure ⟨2, 100⟩ [.initial 0]).stats.prunedCalls ∧ ¬ mutualRules.DerivesEmpty 0 ∧
      mutualRules.CanBeginWith 0 7 := by
  have hb : (mutualRules.closure ⟨2, 100⟩ [.initial 0]).bound = none := by cbv
  have hstart : mutualRules.start? 0 = some 0 := rfl
  obtain ⟨hempty, hfirst⟩ := closure_from_start_exact hstart hb
  refine ⟨by cbv, ?_, ?_⟩
  · intro h
    exact (hempty (by decide)).2 h (by cbv)
  · refine (hfirst (by decide) 7).1 ?_
    have hfrontier : ⟨2, []⟩ ∈ (mutualRules.closure ⟨2, 100⟩ [.initial 0]).frontier := by
      cbv
      exact .head _
    exact ⟨_, hfrontier, .symbol 7, 1, by decide, by decide⟩

end Typeahead.Network
