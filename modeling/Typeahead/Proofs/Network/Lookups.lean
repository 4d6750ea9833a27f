import Typeahead.Proofs.Network.Coherence
import Typeahead.Proofs.Network.InRange
import Typeahead.Proofs.Network.LeftCalls

/-!
# Lookups that may fail

States and rules that do not exist are passed over by `Network.closure` and `Network.step`.  The versions here give no
result instead: a state is looked up before its transitions are followed, a rule before it is entered, and the frames
above a watermark have to be there before they are counted.  In a well-formed network no lookup fails, as long as the
call stacks agree with the states: each state that is met has an owner, and each move keeps the watermark on the stack
(`Pending.Sound`).  So a search has the same result in both versions (`closureChecked_eq`, `stepChecked_eq`).
-/

namespace Typeahead

variable {σ τ : Type}

theorem mapM_eq_some_of_forall {α β : Type} {f : α → Option β} {f' : α → β} {l : List α}
    (h : ∀ a ∈ l, f a = some (f' a)) : l.mapM f = some (l.map f') := by
  induction l with
  | nil => rfl
  | cons a l ih =>
    obtain ⟨ha, hl⟩ := List.forall_mem_cons.1 h
    rw [List.mapM_cons, ha, ih hl]
    rfl

namespace Network

/-- Where a transition leads, if the frames above the watermark and the rule that it calls are there. -/
def moveChecked (net : Network σ τ) (reentry : Nat) (p : Pending) : Transition σ τ → Option (Option Pending)
  | .call rule follow =>
    if p.config.stack.depth < p.watermark then none
    else if reentry ≤ p.reentries rule then some none
    else net.rules[rule]?.map fun info => some ⟨⟨info.start, p.config.stack.push ⟨rule, follow⟩⟩, p.watermark⟩
  | t => some (net.move? reentry p t)

/-- All that is reachable in one move, if the state is there. -/
def movesChecked (net : Network σ τ) (reentry : Nat) (p : Pending) : Option (List Pending) := do
  let state ← net.states[p.config.state]?
  let targets ← state.transitions.mapM (net.moveChecked reentry p)
  pure (targets.filterMap id)

end Network

/-- `run`, with no result if a lookup fails. -/
def Exploration.runChecked (net : Network σ τ) (limits : Limits) (todo later : List Pending) (found : Exploration) :
    Option Exploration :=
  match todo with
  | [] => if later = [] then some found else runChecked net limits later.reverse [] found
  | p :: todo =>
    if found.visited.contains p.config then runChecked net limits todo later found
    else if limits.configurations ≤ found.visited.size then some { found with truncated := true }
    else
      match net.movesChecked limits.reentry p with
      | none => none
      | some moves =>
        runChecked net limits todo (moves.reverse ++ later)
          { found with
            visited := found.visited.push p.config
            prunedCalls := found.prunedCalls + net.prunedCalls limits.reentry p }
termination_by (limits.configurations - found.visited.size, todo.length + 2 * later.length)
decreasing_by
  · have : 0 < later.length := List.length_pos_iff.2 (by assumption)
    apply Prod.Lex.right
    simp
    omega
  · apply Prod.Lex.right
    simp
  · apply Prod.Lex.left
    simp
    omega

namespace Network

/-- `closure`, with no result if a lookup fails.  The frontier and what completes are read off the states again. -/
def closureChecked (net : Network σ τ) (limits : Limits) (seeds : List Configuration) : Option Closure := do
  let found ← Exploration.runChecked net limits (seeds.map .ofSeed) [] .start
  let visited ← found.visited.toList.mapM fun c => net.states[c.state]?.map fun state => (c, state.transitions)
  pure
    { visited := visited.map (·.1)
      frontier := (visited.filter fun (_, ts) => ts.any (·.consumes)).map (·.1)
      completed := visited.flatMap fun (c, ts) =>
        List.replicate (if c.stack.isEmpty then ts.countP (fun | .leave => true | _ => false) else 0) c
      stats := ⟨visited.length, found.prunedCalls, if found.truncated then 1 else 0⟩
      bound := if found.truncated then some ⟨limits.configurations, visited.length⟩ else none }

/-- `step`, with no result if a lookup fails. -/
def stepChecked [DecidableEq σ] [SymbolSet τ σ] (net : Network σ τ) (frontier : List Configuration) (x : σ) :
    Option (List Configuration) := do
  let targets ← frontier.mapM fun c =>
    net.states[c.state]?.map fun state => state.transitions.filterMap fun t => (t.target? x).map c.movedTo
  pure (ConfigurationSet.ofList targets.flatten).toList

end Network

variable {net : Network σ τ} {A : Label σ τ → Prop} {limits : Limits} {seeds : List Configuration} {reentry : Nat}
  {p q : Pending} {c : Configuration} {rule : RuleId}

/-! ### What is met is there -/

namespace Network

theorem Coherent.exists_state (h : net.Coherent rule c.state c.stack) :
    ∃ state, net.states[c.state]? = some state ∧ net.transitions c.state = state.transitions := by
  obtain ⟨owner, howner⟩ := h.exists_owner
  obtain ⟨state, hstate, -⟩ := Option.map_eq_some_iff.1 howner
  exact ⟨state, hstate, transitions_of_getElem? hstate⟩

end Network

/-- The call stack agrees with the state, and the watermark lies on it. -/
structure Pending.Sound (net : Network σ τ) (p : Pending) : Prop where
  coherent : ∃ rule, net.Coherent rule p.config.state p.config.stack
  accounted : p.Accounted net

namespace Pending

theorem sound_ofSeed (h : net.Coherent rule c.state c.stack) : (ofSeed c).Sound net :=
  ⟨⟨rule, h⟩, accounted_ofSeed net c⟩

theorem Sound.of_mem_moves (h : p.Sound net) (hn : net.WellFormed A) (hq : q ∈ net.moves reentry p) : q.Sound net := by
  obtain ⟨⟨rule, hc⟩, ha⟩ := h
  exact ⟨⟨rule, hc.move hn (Network.move_of_mem_moves hq)⟩, ha.of_mem_moves hq⟩

theorem Sound.moveChecked_eq (h : p.Sound net) (hn : net.WellFormed A) {t : Transition σ τ}
    (ht : t ∈ net.transitions p.config.state) : net.moveChecked reentry p t = some (net.move? reentry p t) := by
  cases t with
  | call callee follow =>
    have hrule : callee < net.rules.size := hn.all ht
    have hdepth : ¬ p.config.stack.depth < p.watermark := Nat.not_lt.2 h.accounted.watermark_le
    rw [Network.moveChecked, Network.move?, if_neg hdepth, Network.start?, Array.getElem?_eq_getElem hrule]
    split
    · rfl
    · rfl
  | _ => rfl

theorem Sound.movesChecked_eq (h : p.Sound net) (hn : net.WellFormed A) :
    net.movesChecked reentry p = some (net.moves reentry p) := by
  obtain ⟨rule, hc⟩ := h.coherent
  obtain ⟨state, hstate, hts⟩ := hc.exists_state
  have htargets : state.transitions.mapM (net.moveChecked reentry p) =
      some (state.transitions.map (net.move? reentry p)) :=
    mapM_eq_some_of_forall fun t ht => h.moveChecked_eq hn (hts ▸ ht)
  rw [Network.movesChecked, hstate, Network.moves, hts]
  simp only [Option.bind_eq_bind, Option.bind_some, htargets, Option.pure_def, List.filterMap_map, Function.id_comp]

end Pending

/-! ### Searches -/

namespace Exploration

theorem runChecked_eq (hn : net.WellFormed A) {todo later : List Pending} {found : Exploration}
    (h : ∀ p ∈ todo ++ later, p.Sound net) :
    runChecked net limits todo later found = some (run net limits todo later found) := by
  fun_induction run net limits todo later found with
  | case1 found => rw [runChecked, if_pos rfl]
  | case2 later found hl ih =>
    rw [List.unattach_reverse, List.unattach_attach] at ih
    rw [runChecked, if_neg hl]
    exact ih (by simpa using h)
  | case3 later found p todo hv ih =>
    rw [runChecked, if_pos hv]
    exact ih fun q hq => h q (List.mem_cons_of_mem _ hq)
  | case4 later found p todo hv hs => rw [runChecked, if_neg hv, if_pos hs]
  | case5 later found p todo hv hs ih =>
    have hp := h p (List.mem_cons_self ..)
    rw [runChecked, if_neg hv, if_neg hs, hp.movesChecked_eq hn]
    refine ih fun q hq => ?_
    simp only [List.mem_append, List.mem_reverse] at hq
    rcases hq with hq | hq | hq
    · exact h q (List.mem_cons_of_mem _ (List.mem_append_left _ hq))
    · exact hp.of_mem_moves hn hq
    · exact h q (List.mem_cons_of_mem _ (List.mem_append_right _ hq))

end Exploration

namespace Network

/-- Each configuration has a call stack that agrees with its state, whichever rule it began in. -/
def AllCoherent (net : Network σ τ) (configs : List Configuration) : Prop :=
  ∀ c ∈ configs, ∃ rule, net.Coherent rule c.state c.stack

theorem AllCoherent.visited (h : net.AllCoherent seeds) (hn : net.WellFormed A) :
    net.AllCoherent (net.closure limits seeds).visited := by
  intro c hc
  obtain ⟨seed, hseed, hm⟩ := reachable_of_mem_visited hc
  obtain ⟨rule, hcoherent⟩ := h seed hseed
  exact ⟨rule, hcoherent.reaches hn hm⟩

theorem closureChecked_eq (hn : net.WellFormed A) (h : net.AllCoherent seeds) :
    net.closureChecked limits seeds = some (net.closure limits seeds) := by
  have hrun : Exploration.runChecked net limits (seeds.map .ofSeed) [] .start =
      some (Exploration.run net limits (seeds.map .ofSeed) [] .start) := by
    refine Exploration.runChecked_eq hn fun p hp => ?_
    rw [List.append_nil] at hp
    obtain ⟨c, hc, rfl⟩ := List.mem_map.1 hp
    obtain ⟨rule, hcoherent⟩ := h c hc
    exact Pending.sound_ofSeed hcoherent
  have hvisited : (Exploration.run net limits (seeds.map .ofSeed) [] .start).visited.toList.mapM
      (fun c => net.states[c.state]?.map fun state => (c, state.transitions)) =
        some ((net.closure limits seeds).visited.map fun c => (c, net.transitions c.state)) := by
    refine mapM_eq_some_of_forall fun c hc => ?_
    have hc : c ∈ (net.closure limits seeds).visited := hc
    obtain ⟨rule, hcoherent⟩ := h.visited hn c hc
    obtain ⟨state, hstate, hts⟩ := hcoherent.exists_state
    rw [hstate, hts]
    rfl
  unfold closureChecked
  rw [hrun]
  simp only [Option.bind_eq_bind, Option.bind_some, hvisited, Option.pure_def, List.filter_map, List.map_map,
    List.flatMap_map, List.length_map, Function.comp_def, List.map_id']
  rfl

variable [DecidableEq σ] [SymbolSet τ σ] {frontier : List Configuration} {x : σ}

theorem stepChecked_eq (h : net.AllCoherent frontier) :
    net.stepChecked frontier x = some (net.step frontier x) := by
  have htargets : frontier.mapM (fun c => net.states[c.state]?.map fun state =>
      state.transitions.filterMap fun t => (t.target? x).map c.movedTo) =
        some (frontier.map fun c => (net.transitions c.state).filterMap fun t => (t.target? x).map c.movedTo) := by
    refine mapM_eq_some_of_forall fun c hc => ?_
    obtain ⟨rule, hcoherent⟩ := h c hc
    obtain ⟨state, hstate, hts⟩ := hcoherent.exists_state
    rw [hstate, hts]
    rfl
  unfold stepChecked step
  rw [htargets, List.flatMap_def]
  rfl

theorem AllCoherent.step (h : net.AllCoherent frontier) (hn : net.WellFormed A) :
    net.AllCoherent (net.step frontier x) := by
  intro c hc
  obtain ⟨c₀, hc₀, hx⟩ := mem_step_iff.1 hc
  obtain ⟨rule, hcoherent⟩ := h c₀ hc₀
  exact ⟨rule, hcoherent.consumes hn hx⟩

end Network

end Typeahead
