import Mathlib.Data.List.Forall2
import Typeahead.Grammar.Spelling
import Typeahead.Network.Closure

/-!
# Renumbered networks

The numbers of rules and states carry no meaning.  `Network.Renumbers` says that two networks are the same up to these
numbers: rules are renumbered by a function, states correspond by a relation, and corresponding states have the same
transitions in the same order.  Closures, steps and spellings of the two networks then correspond item by item, with the
same counters, under all limits.
-/

namespace Typeahead

variable {σ τ : Type} {f : RuleId → RuleId} {S : StateId → StateId → Prop}

/-! ### Corresponding transitions, configurations and searches -/

/-- The transitions differ in the numbers of states and rules only. -/
inductive Transition.Matches (f : RuleId → RuleId) (S : StateId → StateId → Prop) :
    Transition σ τ → Transition σ τ → Prop
  | epsilon {u u' : StateId} : S u u' → Matches f S (.epsilon u) (.epsilon u')
  | consume {u u' : StateId} (label : Label σ τ) : S u u' → Matches f S (.consume label u) (.consume label u')
  | call {u u' : StateId} (rule : RuleId) : S u u' → Matches f S (.call rule u) (.call (f rule) u')
  | leave : Matches f S .leave .leave

/-- The invocations are of the same rule, and their callers go on in corresponding states. -/
def Frame.Matches (f : RuleId → RuleId) (S : StateId → StateId → Prop) (a b : Frame) : Prop :=
  b.rule = f a.rule ∧ S a.follow b.follow

/-- The states correspond, and so do the open invocations. -/
structure Configuration.Matches (f : RuleId → RuleId) (S : StateId → StateId → Prop) (c c' : Configuration) : Prop where
  state : S c.state c'.state
  stack : List.Forall₂ (Frame.Matches f S) c.stack c'.stack

/-- The configurations correspond, and the watermark is the same. -/
structure Pending.Matches (f : RuleId → RuleId) (S : StateId → StateId → Prop) (p p' : Pending) : Prop where
  config : p.config.Matches f S p'.config
  watermark : p'.watermark = p.watermark

/-- Corresponding configurations have been explored, in the same order, and the counters are the same. -/
structure Exploration.Matches (f : RuleId → RuleId) (S : StateId → StateId → Prop) (e e' : Exploration) : Prop where
  visited : List.Forall₂ (Configuration.Matches f S) e.visited.toList e'.visited.toList
  prunedCalls : e'.prunedCalls = e.prunedCalls
  truncated : e'.truncated = e.truncated

/-- Corresponding configurations have been found, in the same order, and the counters are the same. -/
structure Closure.Matches (f : RuleId → RuleId) (S : StateId → StateId → Prop) (c c' : Closure) : Prop where
  visited : List.Forall₂ (Configuration.Matches f S) c.visited c'.visited
  frontier : List.Forall₂ (Configuration.Matches f S) c.frontier c'.frontier
  completed : List.Forall₂ (Configuration.Matches f S) c.completed c'.completed
  stats : c'.stats = c.stats
  bound : c'.bound = c.bound

/-- The second network is the first one with other numbers. -/
structure Network.Renumbers (f : RuleId → RuleId) (S : StateId → StateId → Prop) (net net' : Network σ τ) : Prop where
  injective : f.Injective
  biUnique : Relator.BiUnique S
  size : net'.states.size = net.states.size
  transitions : ∀ {s s'}, S s s' → List.Forall₂ (Transition.Matches f S) (net.transitions s) (net'.transitions s')
  start? : ∀ rule, Option.Rel S (net.start? rule) (net'.start? (f rule))
  owner? : ∀ {s s'}, S s s' → net'.owner? s' = (net.owner? s).map f

/-! ### Lists that correspond item by item -/

section Lists

variable {A B C : Type} {R : A → B → Prop} {l : List A} {l' : List B}

theorem countP_eq_of_forall₂ {p : A → Bool} {q : B → Bool} (h : List.Forall₂ R l l')
    (hpq : ∀ {a b}, R a b → q b = p a) : l'.countP q = l.countP p := by
  induction h with
  | nil => rfl
  | cons hab _ ih => rw [List.countP_cons, List.countP_cons, ih, hpq hab]

theorem any_eq_of_forall₂ {p : A → Bool} {q : B → Bool} (h : List.Forall₂ R l l')
    (hpq : ∀ {a b}, R a b → q b = p a) : l'.any q = l.any p := by
  induction h with
  | nil => rfl
  | cons hab _ ih => rw [List.any_cons, List.any_cons, ih, hpq hab]

theorem filterMap_eq_of_forall₂ {p : A → Option C} {q : B → Option C} (h : List.Forall₂ R l l')
    (hpq : ∀ {a b}, R a b → q b = p a) : l'.filterMap q = l.filterMap p := by
  induction h with
  | nil => rfl
  | cons hab _ ih => rw [List.filterMap_cons, List.filterMap_cons, ih, hpq hab]

theorem foldlM_eq_of_forall₂ {g : C → A → Option C} {k : C → B → Option C} (h : List.Forall₂ R l l')
    (hgk : ∀ x {a b}, R a b → k x b = g x a) (x : C) : l'.foldlM k x = l.foldlM g x := by
  induction h generalizing x with
  | nil => rfl
  | cons hab _ ih =>
    rw [List.foldlM_cons, List.foldlM_cons, hgk x hab]
    exact congrArg _ (funext ih)

end Lists

/-! ### Moves -/

variable {net net' : Network σ τ} {c c' : Configuration} {p p' : Pending}

theorem Frame.biUnique_matches (hf : f.Injective) (hS : Relator.BiUnique S) :
    Relator.BiUnique (Frame.Matches f S) := by
  constructor
  · rintro ⟨r, u⟩ ⟨q, v⟩ ⟨_, w⟩ ⟨rfl, hu⟩ ⟨hq, hv⟩
    obtain rfl : r = q := hf hq
    obtain rfl : u = v := hS.1 hu hv
    rfl
  · rintro ⟨r, u⟩ ⟨_, v⟩ ⟨_, w⟩ ⟨rfl, hv⟩ ⟨rfl, hw⟩
    obtain rfl : v = w := hS.2 hv hw
    rfl

theorem Configuration.biUnique_matches (hf : f.Injective) (hS : Relator.BiUnique S) :
    Relator.BiUnique (Configuration.Matches f S) := by
  have hstack := (Frame.biUnique_matches hf hS).forall₂
  constructor
  · rintro ⟨s, α⟩ ⟨t, β⟩ c ⟨hs, hα⟩ ⟨ht, hβ⟩
    obtain rfl : s = t := hS.1 hs ht
    obtain rfl : α = β := hstack.1 hα hβ
    rfl
  · rintro c ⟨s, α⟩ ⟨t, β⟩ ⟨hs, hα⟩ ⟨ht, hβ⟩
    obtain rfl : s = t := hS.2 hs ht
    obtain rfl : α = β := hstack.2 hα hβ
    rfl

theorem Pending.matches_ofSeed (h : c.Matches f S c') : (ofSeed c).Matches f S (ofSeed c') :=
  ⟨h, h.stack.length_eq.symm⟩

theorem Pending.Matches.reentries_eq (h : p.Matches f S p') (hf : f.Injective) (rule : RuleId) :
    p'.reentries (f rule) = p.reentries rule := by
  unfold reentries CallStack.depth
  rw [h.watermark, ← h.config.stack.length_eq]
  refine countP_eq_of_forall₂ (List.forall₂_take _ h.config.stack) fun {a b} hab => ?_
  rw [hab.1]
  exact decide_eq_decide.2 hf.eq_iff

namespace Network

theorem Renumbers.prunes_eq (hn : net.Renumbers f S net') (h : p.Matches f S p') (reentry : Nat) {t t' : Transition σ τ}
    (ht : t.Matches f S t') : prunes reentry p' t' = prunes reentry p t := by
  cases ht with
  | call rule hu =>
    show decide (reentry ≤ p'.reentries (f rule)) = decide (reentry ≤ p.reentries rule)
    rw [h.reentries_eq hn.injective]
  | _ => rfl

/-- A rule is declared in both networks, and starts in corresponding states, or in neither. -/
theorem Renumbers.start?_cases (hn : net.Renumbers f S net') (rule : RuleId) :
    (net.start? rule = none ∧ net'.start? (f rule) = none) ∨
      ∃ s s', net.start? rule = some s ∧ net'.start? (f rule) = some s' ∧ S s s' := by
  have h := hn.start? rule
  generalize net.start? rule = a, net'.start? (f rule) = b at h
  cases h with
  | none => exact Or.inl ⟨rfl, rfl⟩
  | some hs => exact Or.inr ⟨_, _, rfl, rfl, hs⟩

/-- Corresponding transitions lead to corresponding configurations. -/
theorem Renumbers.move? (hn : net.Renumbers f S net') (h : p.Matches f S p') (reentry : Nat) {t t' : Transition σ τ}
    (ht : t.Matches f S t') : Option.Rel (Pending.Matches f S) (net.move? reentry p t) (net'.move? reentry p' t') := by
  cases ht with
  | epsilon hu => exact .some ⟨⟨hu, h.config.stack⟩, h.watermark⟩
  | consume label hu => exact .none
  | call rule hu =>
    simp only [Network.move?, h.reentries_eq hn.injective]
    split
    · exact .none
    · rcases hn.start?_cases rule with ⟨hs, hs'⟩ | ⟨s, s', hs, hs', hstart⟩
      · rw [hs, hs']
        exact .none
      · rw [hs, hs']
        exact .some ⟨⟨hstart, .cons ⟨rfl, hu⟩ h.config.stack⟩, h.watermark⟩
  | leave =>
    obtain ⟨⟨s, stack⟩, w⟩ := p
    obtain ⟨⟨s', stack'⟩, w'⟩ := p'
    obtain ⟨⟨-, hstack⟩, hw⟩ := h
    obtain rfl : w' = w := hw
    cases hstack with
    | nil => exact .none
    | cons hframe hrest => exact .some ⟨⟨hframe.2, hrest⟩, congrArg (min w') hrest.length_eq.symm⟩

theorem Renumbers.moves (hn : net.Renumbers f S net') (h : p.Matches f S p') (reentry : Nat) :
    List.Forall₂ (Pending.Matches f S) (net.moves reentry p) (net'.moves reentry p') := by
  refine List.rel_filterMap ?_ (hn.transitions h.config.state)
  exact fun t t' ht => hn.move? h reentry ht

theorem Renumbers.prunedCalls_eq (hn : net.Renumbers f S net') (h : p.Matches f S p') (reentry : Nat) :
    net'.prunedCalls reentry p' = net.prunedCalls reentry p :=
  countP_eq_of_forall₂ (hn.transitions h.config.state) (hn.prunes_eq h reentry)

theorem Renumbers.consumesAt_eq (hn : net.Renumbers f S net') {s s' : StateId} (h : S s s') :
    net'.consumesAt s' = net.consumesAt s := by
  refine any_eq_of_forall₂ (hn.transitions h) fun ht => ?_
  cases ht <;> rfl

theorem Renumbers.completions_eq (hn : net.Renumbers f S net') (h : c.Matches f S c') :
    net'.completions c' = net.completions c := by
  obtain ⟨s, stack⟩ := c
  obtain ⟨s', stack'⟩ := c'
  obtain ⟨hs, hstack⟩ := h
  cases hstack with
  | nil => exact countP_eq_of_forall₂ (hn.transitions hs) fun ht => by cases ht <;> rfl
  | cons _ _ => rfl

/-! ### Closures and steps -/

theorem Renumbers.contains_eq (hn : net.Renumbers f S net') {set set' : ConfigurationSet}
    (hset : List.Forall₂ (Configuration.Matches f S) set.toList set'.toList) (h : c.Matches f S c') :
    set'.contains c' = set.contains c := by
  rw [Bool.eq_iff_iff, ConfigurationSet.contains_iff_mem_toList, ConfigurationSet.contains_iff_mem_toList]
  exact (List.rel_mem (Configuration.biUnique_matches hn.injective hn.biUnique) h hset).symm

/-- Searches from corresponding configurations correspond. -/
theorem Renumbers.run (hn : net.Renumbers f S net') (limits : Limits) {todo later todo' later' : List Pending}
    {found found' : Exploration} (htodo : List.Forall₂ (Pending.Matches f S) todo todo')
    (hlater : List.Forall₂ (Pending.Matches f S) later later') (hfound : found.Matches f S found') :
    (Exploration.run net limits todo later found).Matches f S (Exploration.run net' limits todo' later' found') := by
  -- each case of the first search forces the same case of the second one
  fun_induction Exploration.run net limits todo later found generalizing todo' later' found' with
  | case1 found =>
    cases htodo
    cases hlater
    rw [Exploration.run, if_pos rfl]
    exact hfound
  | case2 later found hne ih =>
    cases htodo
    have hne' : later' ≠ [] := by
      rintro rfl
      exact hne (List.forall₂_nil_right_iff.1 hlater)
    rw [Exploration.run, if_neg hne']
    rw [List.unattach_reverse, List.unattach_attach] at ih
    exact ih (List.rel_reverse hlater) .nil hfound
  | case3 later found p todo hseen ih =>
    obtain _ | ⟨hp, htodo⟩ := htodo
    rw [Exploration.run, hn.contains_eq hfound.visited hp.config, if_pos hseen]
    exact ih htodo hlater hfound
  | case4 later found p todo hseen hfull =>
    obtain _ | ⟨hp, htodo⟩ := htodo
    have hsize : found'.visited.size = found.visited.size := hfound.visited.length_eq.symm
    rw [Exploration.run, hn.contains_eq hfound.visited hp.config, if_neg hseen, hsize, if_pos hfull]
    exact ⟨hfound.visited, hfound.prunedCalls, rfl⟩
  | case5 later found p todo hseen hfull ih =>
    obtain _ | ⟨hp, htodo⟩ := htodo
    have hsize : found'.visited.size = found.visited.size := hfound.visited.length_eq.symm
    rw [Exploration.run, hn.contains_eq hfound.visited hp.config, if_neg hseen, hsize, if_neg hfull]
    refine ih htodo (List.rel_append (List.rel_reverse (hn.moves hp _)) hlater) ⟨?_, ?_, hfound.truncated⟩
    · rw [ConfigurationSet.toList_push, ConfigurationSet.toList_push]
      exact List.rel_append hfound.visited (.cons hp.config .nil)
    · rw [hfound.prunedCalls, hn.prunedCalls_eq hp]

/-- Closures of corresponding configurations correspond, under all limits. -/
theorem Renumbers.closure (hn : net.Renumbers f S net') (limits : Limits) {seeds seeds' : List Configuration}
    (h : List.Forall₂ (Configuration.Matches f S) seeds seeds') :
    (net.closure limits seeds).Matches f S (net'.closure limits seeds') := by
  have hseeds : List.Forall₂ (Pending.Matches f S) (seeds.map .ofSeed) (seeds'.map .ofSeed) := by
    refine List.rel_map ?_ h
    exact fun c c' hc => Pending.matches_ofSeed hc
  have hfound := hn.run limits hseeds .nil (⟨.nil, rfl, rfl⟩ : Exploration.start.Matches f S .start)
  refine ⟨hfound.visited, ?_, ?_, ?_, ?_⟩
  · refine List.rel_filter ?_ hfound.visited
    exact fun c c' hc => Bool.eq_iff_iff.1 (hn.consumesAt_eq hc.state).symm
  · refine List.rel_flatMap hfound.visited fun c c' hc => ?_
    rw [hn.completions_eq hc, List.forall₂_iff_get]
    simp [hc]
  · simp only [Network.closure, hfound.visited.length_eq, hfound.prunedCalls, hfound.truncated]
  · simp only [Network.closure, hfound.visited.length_eq, hfound.truncated]

theorem Renumbers.ofList (hn : net.Renumbers f S net') {cs cs' : List Configuration}
    (h : List.Forall₂ (Configuration.Matches f S) cs cs') :
    List.Forall₂ (Configuration.Matches f S) (ConfigurationSet.ofList cs).toList
      (ConfigurationSet.ofList cs').toList := by
  unfold ConfigurationSet.ofList
  refine List.rel_foldl (P := fun set set' : ConfigurationSet =>
    List.Forall₂ (Configuration.Matches f S) set.toList set'.toList) ?_ .nil h
  intro set set' hset c c' hc
  rw [ConfigurationSet.toList_insert, ConfigurationSet.toList_insert, hn.contains_eq hset hc]
  split
  · exact hset
  · exact List.rel_append hset (.cons hc .nil)

theorem Renumbers.seeds (hn : net.Renumbers f S net') (rule : RuleId) :
    List.Forall₂ (Configuration.Matches f S) ((net.start? rule).toList.map .initial)
      ((net'.start? (f rule)).toList.map .initial) := by
  rcases hn.start?_cases rule with ⟨hs, hs'⟩ | ⟨s, s', hs, hs', hstart⟩
  · rw [hs, hs']
    exact .nil
  · rw [hs, hs']
    exact .cons ⟨hstart, .nil⟩ .nil

/-- Steps from corresponding configurations correspond. -/
theorem Renumbers.step [DecidableEq σ] [SymbolSet τ σ] (hn : net.Renumbers f S net') (x : σ)
    {frontier frontier' : List Configuration} (h : List.Forall₂ (Configuration.Matches f S) frontier frontier') :
    List.Forall₂ (Configuration.Matches f S) (net.step frontier x) (net'.step frontier' x) := by
  refine hn.ofList (List.rel_flatMap h fun c c' hc => ?_)
  refine List.rel_filterMap ?_ (hn.transitions hc.state)
  intro t t' ht
  cases ht with
  | consume label hu =>
    simp only [Transition.target?]
    split
    · exact .some ⟨hu, hc.stack⟩
    · exact .none
  | _ => exact .none

end Network

theorem Closure.Matches.acceptsEnd_eq {reached reached' : Closure} (h : reached.Matches f S reached') :
    reached'.acceptsEnd = reached.acceptsEnd := by
  have hempty : reached'.completed = [] ↔ reached.completed = [] := by
    rw [← List.length_eq_zero_iff, ← List.length_eq_zero_iff, h.completed.length_eq]
  unfold acceptsEnd
  rw [Bool.eq_iff_iff, Bool.not_eq_true', Bool.not_eq_true', List.isEmpty_eq_false_iff, List.isEmpty_eq_false_iff]
  exact not_congr hempty

/-! ### Spellings -/

/-- The places are at corresponding states, and so do the open fragments go on. -/
structure WalkPosition.Matches (S : StateId → StateId → Prop) (w w' : WalkPosition) : Prop where
  state : S w.state w'.state
  returns : List.Forall₂ S w.returns w'.returns

theorem WalkPosition.biUnique_matches (hS : Relator.BiUnique S) : Relator.BiUnique (WalkPosition.Matches S) := by
  have hreturns := hS.forall₂
  constructor
  · rintro ⟨s, α⟩ ⟨t, β⟩ w ⟨hs, hα⟩ ⟨ht, hβ⟩
    obtain rfl : s = t := hS.1 hs ht
    obtain rfl : α = β := hreturns.1 hα hβ
    rfl
  · rintro w ⟨s, α⟩ ⟨t, β⟩ ⟨hs, hα⟩ ⟨ht, hβ⟩
    obtain rfl : s = t := hS.2 hs ht
    obtain rfl : α = β := hreturns.2 hα hβ
    rfl

namespace Network

variable {net net' : LexicalNetwork}

/-- Walks from corresponding places find the same spellings. -/
theorem Renumbers.walk_eq (hn : net.Renumbers f S net') (fuel : Nat) {path path' : List WalkPosition}
    {position position' : WalkPosition} (text : List Char) (found : List String)
    (hpath : List.Forall₂ (WalkPosition.Matches S) path path') (h : position.Matches S position') :
    net'.walk fuel path' position' text found = net.walk fuel path position text found := by
  induction fuel generalizing path path' position position' text found with
  | zero => rfl
  | succ fuel ih =>
    have hmem := List.rel_mem (WalkPosition.biUnique_matches hn.biUnique) h hpath
    have hpath' := List.Forall₂.cons h hpath
    unfold walk
    by_cases hseen : position ∈ path
    · rw [if_pos hseen, if_pos (hmem.1 hseen)]
    · rw [if_neg hseen, if_neg (mt hmem.2 hseen)]
      refine foldlM_eq_of_forall₂ (hn.transitions h.state) (fun found {t t'} ht => ?_) found
      cases ht with
      | epsilon hu => exact ih text found hpath' ⟨hu, h.returns⟩
      | consume label hu =>
        cases label with
        | symbol c => exact ih (c :: text) found hpath' ⟨hu, h.returns⟩
        | oneOf set =>
          simp only
          split
          · rfl
          · exact ih _ found hpath' ⟨hu, h.returns⟩
      | call rule hu =>
        simp only [h.returns.length_eq]
        split
        · rfl
        · rcases hn.start?_cases rule with ⟨hs, hs'⟩ | ⟨s, s', hs, hs', hstart⟩
          · rw [hs, hs']
          · rw [hs, hs']
            exact ih text found hpath' ⟨hstart, .cons hu h.returns⟩
      | leave =>
        obtain ⟨s, returns⟩ := position
        obtain ⟨s', returns'⟩ := position'
        obtain ⟨hs, hreturns⟩ := h
        cases hreturns with
        | nil => rfl
        | cons hu hrest => exact ih text found hpath' ⟨hu, hrest⟩

/-- A rule has the same spellings under its other number. -/
theorem Renumbers.spellings?_eq (hn : net.Renumbers f S net') (rule : RuleId) :
    net'.spellings? (f rule) = net.spellings? rule := by
  unfold spellings? walkFuel
  rw [hn.size]
  rcases hn.start?_cases rule with ⟨hs, hs'⟩ | ⟨s, s', hs, hs', hstart⟩
  · rw [hs, hs']
  · rw [hs, hs']
    have hposition : WalkPosition.Matches S ⟨s, []⟩ ⟨s', []⟩ := ⟨hstart, .nil⟩
    simp only [hn.walk_eq _ [] [] .nil hposition]

end Network

end Typeahead
