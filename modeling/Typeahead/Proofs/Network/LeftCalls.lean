import Typeahead.Proofs.Network.Exploration

/-!
# Left calls

A rule left-calls another one if the other one can be called within a single invocation of the rule before a symbol is
consumed.  The invocations that a closure has opened and not left again call each other in this way
(`Opened.transGen_leftCalls`).  So if no rule left-calls itself, be it through others, a closure never meets a rule
that it has opened already: no call is pruned, and the re-entry limit has no effect (`closure_of_noLeftCycle`).
-/

namespace Typeahead

namespace Network

variable {σ τ : Type} {net : Network σ τ}

/-- Within one invocation of the caller and without consuming a symbol, a call of the callee can be reached.  A run
that begins and ends without open invocations never leaves the invocation it begins in. -/
def LeftCalls (net : Network σ τ) (caller callee : RuleId) : Prop :=
  ∃ start s follow, net.start? caller = some start ∧ net.Reaches (.initial start) (.initial s) ∧
    .call callee follow ∈ net.transitions s

/-- No rule left-calls itself, directly or through other rules. -/
def NoLeftCycle (net : Network σ τ) : Prop := ∀ rule, ¬ Relation.TransGen net.LeftCalls rule rule

/-- Invocations that were open before do not matter. -/
theorem Reaches.append_stack {c c' : Configuration} (h : net.Reaches c c') (below : CallStack) :
    net.Reaches ⟨c.state, c.stack ++ below⟩ ⟨c'.state, c'.stack ++ below⟩ := by
  refine h.lift (fun c : Configuration => (⟨c.state, c.stack ++ below⟩ : Configuration)) fun c c' h => ?_
  cases h with
  | epsilon h => exact .epsilon h
  | call h hs => exact .call h hs
  | leave h hs =>
    obtain ⟨s, stack⟩ := c
    cases stack with
    | nil => cases hs
    | cons frame rest =>
      cases hs
      exact .leave h rfl

/-! ### The invocations that a closure opens -/

/-- The invocations that a closure has opened at a state, innermost first.  Each was called within the one below it,
and the state lies within the innermost one.  Nothing is known about the invocation in which the closure began. -/
inductive Opened (net : Network σ τ) : StateId → List Frame → Prop where
  | nil (s : StateId) : Opened net s []
  | cons {s caller start : StateId} {frame : Frame} {below : List Frame}
    (hcall : .call frame.rule frame.follow ∈ net.transitions caller) (hstart : net.start? frame.rule = some start)
    (hs : net.Reaches (.initial start) (.initial s)) (h : Opened net caller below) : Opened net s (frame :: below)

variable {s : StateId} {frame : Frame} {below opened : List Frame}

/-- Staying within the innermost invocation opens and closes nothing. -/
theorem Opened.reaches (h : net.Opened s opened) {t : StateId} (ht : net.Reaches (.initial s) (.initial t)) :
    net.Opened t opened := by
  cases h with
  | nil => exact .nil t
  | cons hcall hstart hs h => exact .cons hcall hstart (hs.trans ht) h

/-- What has been called can be left, and the caller goes on as if nothing had been opened. -/
theorem Opened.leave (h : net.Opened s (frame :: below)) (ht : .leave ∈ net.transitions s) :
    net.Opened frame.follow below := by
  cases h with
  | cons hcall hstart hs h =>
    rename_i caller start
    refine h.reaches ?_
    have hopen : net.Move (.initial caller) ⟨start, [frame]⟩ := .call hcall hstart
    have hinside : net.Reaches ⟨start, [frame]⟩ ⟨s, [frame]⟩ := hs.append_stack [frame]
    have hleave : net.Move ⟨s, [frame]⟩ (.initial frame.follow) := .leave ht rfl
    exact (hinside.head hopen).tail hleave

/-- Each open invocation left-calls, maybe through others, whatever can be called now. -/
theorem Opened.transGen_leftCalls (h : net.Opened s opened) {callee : RuleId} {follow : StateId}
    (ht : .call callee follow ∈ net.transitions s) (hmem : frame ∈ opened) :
    Relation.TransGen net.LeftCalls frame.rule callee := by
  induction h generalizing callee follow with
  | nil => cases hmem
  | cons hcall hstart hs _ ih =>
    have hinnermost : Relation.TransGen net.LeftCalls _ callee := .single ⟨_, _, _, hstart, hs, ht⟩
    rcases List.mem_cons.1 hmem with rfl | hmem
    · exact hinnermost
    · exact (ih hcall hmem).trans hinnermost

end Network

namespace Pending

/-- The invocations that the closure has opened, innermost first. -/
def opened (p : Pending) : List Frame := p.config.stack.take (p.config.stack.depth - p.watermark)

/-- The frames above the watermark were opened by the closure. -/
structure Accounted {σ τ : Type} (net : Network σ τ) (p : Pending) : Prop where
  watermark_le : p.watermark ≤ p.config.stack.depth
  opened : net.Opened p.config.state p.opened

variable {σ τ : Type} {net : Network σ τ} {p q : Pending} {reentry : Nat}

theorem accounted_ofSeed (net : Network σ τ) (c : Configuration) : (ofSeed c).Accounted net := by
  refine ⟨Nat.le_refl _, ?_⟩
  have hnone : (ofSeed c).opened = [] := by
    unfold Pending.opened ofSeed
    rw [Nat.sub_self, List.take_zero]
  rw [hnone]
  exact .nil _

/-- Each move of the search keeps the account of what has been opened. -/
theorem Accounted.of_mem_moves (h : p.Accounted net) (hq : q ∈ net.moves reentry p) : q.Accounted net := by
  obtain ⟨hle, hopened⟩ := h
  obtain ⟨⟨s, stack⟩, watermark⟩ := p
  obtain ⟨t, ht, hq⟩ := List.mem_filterMap.1 hq
  cases t with
  | epsilon target =>
    cases hq
    exact ⟨hle, hopened.reaches (.single (.epsilon ht))⟩
  | consume label target => cases hq
  | call rule follow =>
    simp only [Network.move?] at hq
    split at hq
    · cases hq
    · obtain ⟨start, hs, rfl⟩ := Option.map_eq_some_iff.1 hq
      refine ⟨Nat.le_succ_of_le hle, ?_⟩
      have hframe : (⟨⟨start, stack.push ⟨rule, follow⟩⟩, watermark⟩ : Pending).opened =
          ⟨rule, follow⟩ :: (⟨⟨s, stack⟩, watermark⟩ : Pending).opened := by
        unfold Pending.opened
        rw [CallStack.depth_push, Nat.succ_sub hle]
        rfl
      rw [hframe]
      exact .cons ht hs .refl hopened
  | leave =>
    cases stack with
    | nil => cases hq
    | cons frame rest =>
      cases hq
      refine ⟨Nat.min_le_right _ _, ?_⟩
      by_cases hw : watermark ≤ CallStack.depth rest
      · have hframe : (⟨⟨s, frame :: rest⟩, watermark⟩ : Pending).opened =
            frame :: rest.take (CallStack.depth rest - watermark) := by
          unfold Pending.opened
          rw [show CallStack.depth (frame :: rest) = CallStack.depth rest + 1 from rfl, Nat.succ_sub hw,
            List.take_succ_cons]
        rw [hframe] at hopened
        unfold Pending.opened
        rw [Nat.min_eq_left hw]
        exact hopened.leave ht
      · -- an invocation is left in which the closure began
        unfold Pending.opened
        rw [Nat.min_eq_right (Nat.le_of_not_le hw), Nat.sub_self, List.take_zero]
        exact .nil _

/-- A rule that has been opened is not called again. -/
theorem Accounted.reentries_eq_zero (h : p.Accounted net) (hn : net.NoLeftCycle) {rule : RuleId} {follow : StateId}
    (ht : .call rule follow ∈ net.transitions p.config.state) : p.reentries rule = 0 := by
  refine List.countP_eq_zero.2 fun frame hframe hrule => ?_
  have hcycle := h.opened.transGen_leftCalls ht hframe
  rw [of_decide_eq_true hrule] at hcycle
  exact hn rule hcycle

theorem Accounted.prunedCalls_eq_zero (h : p.Accounted net) (hn : net.NoLeftCycle) (hr : 1 ≤ reentry) :
    net.prunedCalls reentry p = 0 := by
  refine List.countP_eq_zero.2 fun t ht => ?_
  cases t with
  | call rule follow =>
    rw [Network.prunes, h.reentries_eq_zero hn ht, decide_eq_true_eq]
    omega
  | _ => exact Bool.false_ne_true

/-- The limit does not matter for the moves. -/
theorem Accounted.moves_eq (h : p.Accounted net) (hn : net.NoLeftCycle) {reentry' : Nat} (hr : 1 ≤ reentry)
    (hr' : 1 ≤ reentry') : net.moves reentry' p = net.moves reentry p := by
  refine List.filterMap_congr fun t ht => ?_
  cases t with
  | call rule follow =>
    rw [Network.move?, Network.move?, h.reentries_eq_zero hn ht, if_neg (by omega), if_neg (by omega)]
  | _ => rfl

end Pending

/-! ### Closures without left cycles -/

variable {σ τ : Type} {net : Network σ τ}

/-- A search prunes no call and takes the same way for each limit. -/
private theorem Exploration.run_of_noLeftCycle (hn : net.NoLeftCycle) {limits : Limits} (hr : 1 ≤ limits.reentry)
    {reentry : Nat} (hr' : 1 ≤ reentry) {todo later : List Pending} {found : Exploration}
    (h : ∀ p ∈ todo ++ later, p.Accounted net) :
    (run net limits todo later found).prunedCalls = found.prunedCalls ∧
      run net ⟨reentry, limits.configurations⟩ todo later found = run net limits todo later found := by
  fun_induction run net limits todo later found with
  | case1 found => exact ⟨rfl, by rw [run, if_pos rfl]⟩
  | case2 later found hl ih =>
    rw [List.unattach_reverse, List.unattach_attach] at ih
    rw [run.eq_1 _ ⟨reentry, _⟩, if_neg hl]
    exact ih (by simpa using h)
  | case3 later found p todo hv ih =>
    rw [run.eq_2 _ ⟨reentry, _⟩, if_pos hv]
    exact ih fun q hq => h q (List.mem_cons_of_mem _ hq)
  | case4 later found p todo hv hs =>
    exact ⟨rfl, by rw [run.eq_2 _ ⟨reentry, _⟩, if_neg hv, if_pos hs]⟩
  | case5 later found p todo hv hs ih =>
    have hp := h p (List.mem_cons_self ..)
    rw [hp.prunedCalls_eq_zero hn hr, Nat.add_zero] at ih
    rw [run.eq_2 _ ⟨reentry, _⟩, if_neg hv, if_neg hs, hp.moves_eq hn hr hr', hp.prunedCalls_eq_zero hn hr,
      hp.prunedCalls_eq_zero hn hr', Nat.add_zero]
    refine ih fun q hq => ?_
    simp only [List.mem_append, List.mem_reverse] at hq
    rcases hq with hq | hq | hq
    · exact h q (List.mem_cons_of_mem _ (List.mem_append_left _ hq))
    · exact hp.of_mem_moves hq
    · exact h q (List.mem_cons_of_mem _ (List.mem_append_right _ hq))

namespace Network

variable {limits : Limits}

private theorem run_start_of_noLeftCycle (hn : net.NoLeftCycle) (hr : 1 ≤ limits.reentry) {reentry : Nat}
    (hr' : 1 ≤ reentry) (seeds : List Configuration) :
    (Exploration.run net limits (seeds.map .ofSeed) [] .start).prunedCalls = 0 ∧
      Exploration.run net ⟨reentry, limits.configurations⟩ (seeds.map .ofSeed) [] .start =
        Exploration.run net limits (seeds.map .ofSeed) [] .start := by
  refine Exploration.run_of_noLeftCycle hn hr hr' fun p hp => ?_
  rw [List.append_nil] at hp
  obtain ⟨c, -, rfl⟩ := List.mem_map.1 hp
  exact Pending.accounted_ofSeed net c

/-- Without left cycles, no call is pruned. -/
theorem prunedCalls_closure_eq_zero (hn : net.NoLeftCycle) (hr : 1 ≤ limits.reentry) (seeds : List Configuration) :
    (net.closure limits seeds).stats.prunedCalls = 0 :=
  (run_start_of_noLeftCycle hn hr hr seeds).1

/-- If no rule left-calls itself, a closure of any seeds prunes no call and is the same for each re-entry limit.  So
unless the limit on configurations cuts it short, it finds all that is reachable. -/
theorem closure_of_noLeftCycle (hn : net.NoLeftCycle) (hr : 1 ≤ limits.reentry) (seeds : List Configuration) :
    (net.closure limits seeds).stats.prunedCalls = 0 ∧
    (∀ reentry, 1 ≤ reentry →
      net.closure ⟨reentry, limits.configurations⟩ seeds = net.closure limits seeds) ∧
    ((net.closure limits seeds).bound = none →
      (∀ c, c ∈ (net.closure limits seeds).frontier ↔ net.Reachable seeds c ∧ net.CanConsume c.state) ∧
      ∀ c, c ∈ (net.closure limits seeds).completed ↔ net.Reachable seeds c ∧ net.CanFinish c) := by
  have hpruned := prunedCalls_closure_eq_zero hn hr seeds
  refine ⟨hpruned, fun reentry hr' => ?_, fun hb => ?_⟩
  · unfold closure
    rw [(run_start_of_noLeftCycle hn hr hr' seeds).2]
  · have he : (net.closure limits seeds).Exhaustive := ⟨hpruned, hb⟩
    refine ⟨fun c => ?_, fun c => ?_⟩
    · rw [mem_frontier_iff, mem_visited_iff_of_exhaustive he]
    · rw [mem_completed_iff, mem_visited_iff_of_exhaustive he]

/-- The looping rule calls a rule that calls nothing, so the smallest limit prunes nothing, also when the search begins
inside a call. -/
theorem closure_loopingRule :
    loopingRule.NoLeftCycle ∧
      (loopingRule.closure ⟨1, 100⟩ [.initial 0, ⟨4, [⟨1, 5⟩]⟩]).stats.prunedCalls = 0 := by
  have hcalls : ∀ s callee follow, .call callee follow ∈ loopingRule.transitions s → s = 2 ∧ callee = 1 := by
    intro s callee follow h
    match s with
    | 0 | 1 | 2 | 3 | 4 | 5 => simp_all [loopingRule, transitions]
    | s + 6 => simp [loopingRule, transitions] at h
  -- the called rule goes nowhere but to its end
  have hinner : ∀ c, loopingRule.Reaches (.initial 3) c → c = .initial 3 ∨ c = .initial 4 := by
    intro c h
    induction h with
    | refl => exact Or.inl rfl
    | tail _ hm ih =>
      rcases ih with rfl | rfl
      · have hpruned : loopingRule.prunedCalls 1 (.ofSeed (.initial 3)) = 0 := by decide
        obtain ⟨q, hq, rfl⟩ := exists_mem_moves hpruned hm
        have hmoves : loopingRule.moves 1 (.ofSeed (.initial 3)) = [.ofSeed (.initial 4)] := by decide
        rw [hmoves, List.mem_singleton] at hq
        exact Or.inr (congrArg Pending.config hq)
      · have hpruned : loopingRule.prunedCalls 1 (.ofSeed (.initial 4)) = 0 := by decide
        obtain ⟨q, hq, rfl⟩ := exists_mem_moves hpruned hm
        have hmoves : loopingRule.moves 1 (.ofSeed (.initial 4)) = [] := by decide
        rw [hmoves] at hq
        cases hq
  have hleft : ∀ caller callee, loopingRule.LeftCalls caller callee → caller ≠ 1 ∧ callee = 1 := by
    rintro caller callee ⟨start, s, follow, hstart, hs, ht⟩
    obtain ⟨rfl, rfl⟩ := hcalls s callee follow ht
    refine ⟨?_, rfl⟩
    rintro rfl
    cases hstart
    rcases hinner _ hs with h | h <;> cases h
  have hn : loopingRule.NoLeftCycle := by
    intro rule h
    obtain ⟨next, hfirst, -⟩ := Relation.TransGen.head'_iff.1 h
    obtain ⟨last, -, hlast⟩ := Relation.TransGen.tail'_iff.1 h
    exact (hleft _ _ hfirst).1 (hleft _ _ hlast).2
  exact ⟨hn, (closure_of_noLeftCycle hn (Nat.le_refl 1) _).1⟩

end Network

end Typeahead
