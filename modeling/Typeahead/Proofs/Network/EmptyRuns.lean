import Typeahead.Proofs.Network.LeftCalls
import Typeahead.Proofs.Network.Trace

/-!
# Rules that can be left without consuming

Whether a rule can be left again without consuming a symbol is graded by how many invocations such a run nests
(`EmptyWithin`).  A run with as little nesting as possible never opens a rule inside itself, so a search that starts
without open invocations follows it even if each rule may be opened once only (`searches_of_passes`).  Unless the limit
on configurations cuts it short, it therefore finds the end of a rule whenever there is one to be found
(`acceptsEnd_closure_initial_iff`), whatever calls it prunes.
-/

namespace Typeahead.Network

open Relation

variable {σ τ : Type} {net : Network σ τ}

/-! ### Runs within one invocation -/

/-- Moving on within an invocation; an inner invocation is passed in one go if its rule is an empty one. -/
inductive Passes (net : Network σ τ) (empty : RuleId → Prop) : StateId → StateId → Prop where
  | epsilon {s t : StateId} (h : .epsilon t ∈ net.transitions s) : Passes net empty s t
  | call {s follow : StateId} {rule : RuleId} (h : .call rule follow ∈ net.transitions s) (he : empty rule) :
    Passes net empty s follow

/-- The rule can be left without consuming a symbol, and no more than `depth` invocations are nested on the way, its own
included. -/
def EmptyWithin (net : Network σ τ) : Nat → RuleId → Prop
  | 0, _ => False
  | depth + 1, rule => ∃ start s, net.start? rule = some start ∧
      ReflTransGen (net.Passes (EmptyWithin net depth)) start s ∧ .leave ∈ net.transitions s

theorem passes_mono {empty empty' : RuleId → Prop} (he : ∀ rule, empty rule → empty' rule) {s t : StateId}
    (h : ReflTransGen (net.Passes empty) s t) : ReflTransGen (net.Passes empty') s t := by
  refine h.lift id fun s t h => ?_
  cases h with
  | epsilon h => exact .epsilon h
  | call h hr => exact .call h (he _ hr)

theorem EmptyWithin.succ {depth : Nat} {rule : RuleId} (h : net.EmptyWithin depth rule) :
    net.EmptyWithin (depth + 1) rule := by
  induction depth generalizing rule with
  | zero => exact h.elim
  | succ depth ih =>
    obtain ⟨start, s, hs, hrun, hl⟩ := h
    exact ⟨start, s, hs, passes_mono (fun _ => ih) hrun, hl⟩

theorem EmptyWithin.mono {depth depth' : Nat} (hle : depth ≤ depth') {rule : RuleId}
    (h : net.EmptyWithin depth rule) : net.EmptyWithin depth' rule := by
  induction hle with
  | refl => exact h
  | step _ ih => exact ih.succ

/-- There is a least number of nested invocations. -/
theorem EmptyWithin.exists_least {depth : Nat} {rule : RuleId} (h : net.EmptyWithin depth rule) :
    ∃ inner < depth, net.EmptyWithin (inner + 1) rule ∧ ¬ net.EmptyWithin inner rule := by
  induction depth with
  | zero => exact h.elim
  | succ depth ih =>
    by_cases hd : net.EmptyWithin depth rule
    · obtain ⟨inner, hlt, hinner⟩ := ih hd
      exact ⟨inner, Nat.lt_succ_of_lt hlt, hinner⟩
    · exact ⟨depth, Nat.lt_succ_self _, h, hd⟩

/-! ### Moves of a search without open invocations -/

/-- A move of a search that has begun without open invocations, so that all frames count. -/
def Searches (net : Network σ τ) (reentry : Nat) (c c' : Configuration) : Prop :=
  ⟨c', 0⟩ ∈ net.moves reentry ⟨c, 0⟩

variable {reentry : Nat} {s t : StateId} {stack : CallStack}

theorem searches_epsilon (h : .epsilon t ∈ net.transitions s) : net.Searches reentry ⟨s, stack⟩ ⟨t, stack⟩ :=
  List.mem_filterMap.2 ⟨_, h, rfl⟩

theorem reentries_zero (s : StateId) (stack : CallStack) (rule : RuleId) :
    Pending.reentries ⟨⟨s, stack⟩, 0⟩ rule = stack.countP (·.rule = rule) := by
  unfold Pending.reentries
  rw [Nat.sub_zero, CallStack.depth, List.take_length]

theorem searches_call {rule : RuleId} {start follow : StateId} (h : .call rule follow ∈ net.transitions s)
    (hs : net.start? rule = some start) (hlt : stack.countP (·.rule = rule) < reentry) :
    net.Searches reentry ⟨s, stack⟩ ⟨start, stack.push ⟨rule, follow⟩⟩ := by
  refine List.mem_filterMap.2 ⟨_, h, ?_⟩
  rw [move?, reentries_zero, if_neg (Nat.not_le_of_lt hlt), hs]
  rfl

theorem searches_leave {frame : Frame} (h : .leave ∈ net.transitions s) :
    net.Searches reentry ⟨s, frame :: stack⟩ ⟨frame.follow, stack⟩ :=
  List.mem_filterMap.2 ⟨_, h, by simp [move?, CallStack.pop?]⟩

/-- A run within an invocation is followed by the search if the rules that it passes may still be opened. -/
theorem searches_of_passes {depth : Nat} (stack : CallStack)
    (h : ReflTransGen (net.Passes (net.EmptyWithin depth)) s t)
    (hstack : ∀ rule, net.EmptyWithin depth rule → stack.countP (·.rule = rule) < reentry) :
    ReflTransGen (net.Searches reentry) ⟨s, stack⟩ ⟨t, stack⟩ := by
  induction depth using Nat.strong_induction_on generalizing s t stack with
  | h depth ihdepth =>
    induction h with
    | refl => exact .refl
    | @tail s' t _ hpass ih =>
      refine ih.trans ?_
      cases hpass with
      | epsilon h => exact .single (searches_epsilon h)
      | @call rule h he =>
        -- a run through the inner invocation that nests as little as possible does not open its rule again
        obtain ⟨inner, hlt, ⟨start, last, hs, hrun, hl⟩, hleast⟩ := he.exists_least
        have hinner := ihdepth inner hlt (stack.push ⟨rule, t⟩) hrun fun rule' he' => by
          have hne : rule ≠ rule' := fun hr => hleast (hr ▸ he')
          rw [CallStack.push, List.countP_cons_of_neg (by simpa using hne)]
          exact hstack rule' (he'.mono (Nat.le_of_lt hlt))
        exact (hinner.head (searches_call h hs (hstack rule he))).tail (searches_leave hl)

/-! ### Where a run without open invocations comes to -/

/-- The state of a configuration lies within its innermost invocation, and the invocations were called one within the
other, the outermost from a run that began at `origin`. -/
inductive Nested (net : Network σ τ) (depth : Nat) (origin : StateId) : StateId → CallStack → Prop where
  | nil {s : StateId} (h : ReflTransGen (net.Passes (net.EmptyWithin depth)) origin s) : Nested net depth origin s []
  | cons {s caller start : StateId} {frame : Frame} {below : CallStack} (h : Nested net depth origin caller below)
    (hcall : .call frame.rule frame.follow ∈ net.transitions caller) (hstart : net.start? frame.rule = some start)
    (hs : ReflTransGen (net.Passes (net.EmptyWithin depth)) start s) : Nested net depth origin s (frame :: below)

variable {depth : Nat} {origin : StateId}

theorem Nested.succ (h : net.Nested depth origin s stack) : net.Nested (depth + 1) origin s stack := by
  induction h with
  | nil h => exact .nil (passes_mono (fun _ => EmptyWithin.succ) h)
  | cons _ hcall hstart hs ih => exact .cons ih hcall hstart (passes_mono (fun _ => EmptyWithin.succ) hs)

theorem Nested.passes (h : net.Nested depth origin s stack) (hp : net.Passes (net.EmptyWithin depth) s t) :
    net.Nested depth origin t stack := by
  cases h with
  | nil h => exact .nil (h.tail hp)
  | cons h hcall hstart hs => exact .cons h hcall hstart (hs.tail hp)

/-- Leaving an invocation makes its rule an empty one. -/
theorem Nested.move {c c' : Configuration} (h : net.Nested depth origin c.state c.stack) (hm : net.Move c c') :
    net.Nested (depth + 1) origin c'.state c'.stack := by
  cases hm with
  | epsilon ht => exact h.succ.passes (.epsilon ht)
  | call ht hs => exact .cons h.succ ht hs .refl
  | leave ht hpop =>
    obtain ⟨s, stack⟩ := c
    cases stack with
    | nil => cases hpop
    | cons frame below =>
      cases hpop
      cases h with
      | cons h hcall hstart hs => exact h.succ.passes (.call hcall ⟨_, _, hstart, hs, ht⟩)

theorem exists_nested_of_reaches {c : Configuration} (h : net.Reaches (.initial origin) c) :
    ∃ depth, net.Nested depth origin c.state c.stack := by
  induction h with
  | refl => exact ⟨0, .nil .refl⟩
  | tail _ hm ih =>
    obtain ⟨depth, h⟩ := ih
    exact ⟨depth + 1, h.move hm⟩

/-! ### Searches that are not cut short -/

variable {limits : Limits}

/-- A closure from a state without open invocations explores all that its search leads to. -/
theorem mem_visited_of_searches (hb : (net.closure limits [.initial s]).bound = none) {c : Configuration}
    (h : ReflTransGen (net.Searches limits.reentry) (.initial s) c) :
    c ∈ (net.closure limits [.initial s]).visited := by
  obtain ⟨hseeds, hmoves⟩ := mem_visited_of_bound_eq_none hb
  induction h with
  | refl => exact hseeds _ (List.mem_singleton.2 rfl)
  | tail _ hstep ih =>
    obtain ⟨⟨c, watermark⟩, hp, rfl⟩ := exists_explored ih
    obtain rfl : watermark = 0 := watermark_eq_zero (List.forall_mem_singleton.2 rfl) _ hp
    exact hmoves _ hp _ hstep

/-- If each rule may be opened once at least, a closure from a state without open invocations finds the end of the
outermost rule whenever it can be reached, whatever calls are pruned. -/
theorem acceptsEnd_closure_initial_iff (hr : 1 ≤ limits.reentry)
    (hb : (net.closure limits [.initial s]).bound = none) :
    (net.closure limits [.initial s]).acceptsEnd = true ↔ ∃ c, net.Reaches (.initial s) c ∧ net.CanFinish c := by
  rw [acceptsEnd_iff]
  constructor
  · rintro ⟨c, hc, hf⟩
    obtain ⟨seed, hseed, hm⟩ := reachable_of_mem_visited hc
    rw [List.mem_singleton] at hseed
    exact ⟨c, hseed ▸ hm, hf⟩
  · rintro ⟨⟨last, stack⟩, hm, hf⟩
    obtain ⟨depth, hnested⟩ := exists_nested_of_reaches hm
    obtain rfl : stack = [] := hf.1
    cases hnested with
    | nil hrun =>
      have hsearch := searches_of_passes [] hrun fun _ _ => Nat.lt_of_lt_of_le Nat.zero_lt_one hr
      exact ⟨_, mem_visited_of_searches hb hsearch, hf⟩

end Typeahead.Network
