import Mathlib.Logic.Relation
import Typeahead.Network.Closure

/-!
# Moves and runs of a network

What a network can do, told without queue and limits: a configuration moves without consuming a symbol (`Move`),
consumes a symbol (`Consumes`), and reads a word by doing both in turn (`Reads`).  The search of `Network.closure`
and `Network.step` is compared with these relations: one search step follows exactly the moves of a configuration
unless it prunes a call (`move_of_mem_moves`, `exists_mem_moves`), and `step` crosses exactly the transitions that
accept the symbol (`mem_step_iff`).
-/

namespace Typeahead

/-- The search behind a closure followed every call and was not cut short. -/
def Closure.Exhaustive (c : Closure) : Prop := c.stats.prunedCalls = 0 ∧ c.bound = none

instance (c : Closure) : Decidable c.Exhaustive := inferInstanceAs (Decidable (_ ∧ _))

/-- No call was pruned and no closure cut short. -/
def Stats.Complete (s : Stats) : Prop := s.prunedCalls = 0 ∧ s.truncated = 0

instance (s : Stats) : Decidable s.Complete := inferInstanceAs (Decidable (_ ∧ _))

theorem Stats.complete_add_iff {s t : Stats} : (s + t).Complete ↔ s.Complete ∧ t.Complete := by
  show s.prunedCalls + t.prunedCalls = 0 ∧ s.truncated + t.truncated = 0 ↔ _
  rw [Nat.add_eq_zero_iff, Nat.add_eq_zero_iff]
  exact and_and_and_comm

namespace Network

variable {σ τ : Type}

/-- One move that consumes nothing. -/
inductive Move (net : Network σ τ) : Configuration → Configuration → Prop where
  | epsilon {c : Configuration} {target : StateId} (h : .epsilon target ∈ net.transitions c.state) :
    Move net c (c.movedTo target)
  | call {c : Configuration} {rule : RuleId} {follow start : StateId}
    (h : .call rule follow ∈ net.transitions c.state) (hs : net.start? rule = some start) :
    Move net c ⟨start, c.stack.push ⟨rule, follow⟩⟩
  | leave {c : Configuration} {frame : Frame} {rest : CallStack} (h : .leave ∈ net.transitions c.state)
    (hs : c.stack.pop? = some (frame, rest)) : Move net c ⟨frame.follow, rest⟩

/-- Any number of moves that consume nothing. -/
def Reaches (net : Network σ τ) : Configuration → Configuration → Prop := Relation.ReflTransGen net.Move

/-- What some seed reaches. -/
def Reachable (net : Network σ τ) (seeds : List Configuration) (c : Configuration) : Prop :=
  ∃ seed ∈ seeds, net.Reaches seed c

/-- The state has a transition that consumes a symbol. -/
def CanConsume (net : Network σ τ) (state : StateId) : Prop :=
  ∃ label target, .consume label target ∈ net.transitions state

/-- The configuration leaves the outermost rule. -/
def CanFinish (net : Network σ τ) (c : Configuration) : Prop := c.stack = [] ∧ .leave ∈ net.transitions c.state

/-- The counters of a closure tell whether it is exhaustive. -/
theorem exhaustive_closure_iff {net : Network σ τ} {limits : Limits} {seeds : List Configuration} :
    (net.closure limits seeds).Exhaustive ↔ (net.closure limits seeds).stats.Complete := by
  unfold Closure.Exhaustive Stats.Complete closure
  simp

theorem consumesAt_iff {net : Network σ τ} {state : StateId} :
    net.consumesAt state = true ↔ net.CanConsume state := by
  unfold consumesAt CanConsume
  rw [List.any_eq_true]
  constructor
  · rintro ⟨t, ht, hc⟩
    cases t with
    | consume label target => exact ⟨label, target, ht⟩
    | _ => simp [Transition.consumes] at hc
  · rintro ⟨label, target, h⟩
    exact ⟨_, h, rfl⟩

theorem completions_pos_iff {net : Network σ τ} {c : Configuration} :
    0 < net.completions c ↔ net.CanFinish c := by
  unfold completions CanFinish
  split
  · rename_i he
    rw [List.isEmpty_iff] at he
    rw [List.countP_pos_iff]
    constructor
    · rintro ⟨t, ht, hl⟩
      cases t with
      | leave => exact ⟨he, ht⟩
      | _ => simp at hl
    · rintro ⟨_, h⟩
      exact ⟨_, h, rfl⟩
  · rename_i he
    rw [List.isEmpty_iff] at he
    simp [he]

/-! ### The moves of the search -/

/-- The search follows moves only. -/
theorem move_of_mem_moves {net : Network σ τ} {reentry : Nat} {p q : Pending} (h : q ∈ net.moves reentry p) :
    net.Move p.config q.config := by
  obtain ⟨t, ht, hq⟩ := List.mem_filterMap.1 h
  cases t with
  | epsilon target =>
    cases hq
    exact .epsilon ht
  | consume label target => cases hq
  | call rule follow =>
    simp only [move?] at hq
    split at hq
    · cases hq
    · obtain ⟨start, hs, rfl⟩ := Option.map_eq_some_iff.1 hq
      exact .call ht hs
  | leave =>
    simp only [move?] at hq
    split at hq
    · cases hq
    · rename_i frame rest hs
      cases hq
      exact .leave ht hs

/-- A configuration from which no call is pruned has each of its moves followed. -/
theorem exists_mem_moves {net : Network σ τ} {reentry : Nat} {p : Pending}
    (hp : net.prunedCalls reentry p = 0) {c : Configuration} (h : net.Move p.config c) :
    ∃ q ∈ net.moves reentry p, q.config = c := by
  cases h with
  | epsilon h => exact ⟨_, List.mem_filterMap.2 ⟨_, h, rfl⟩, rfl⟩
  | call h hs =>
    rename_i rule follow start
    have hn := List.countP_eq_zero.1 hp _ h
    simp only [prunes, decide_eq_true_eq] at hn
    exact ⟨_, List.mem_filterMap.2 ⟨_, h, by rw [move?, if_neg hn, hs]; rfl⟩, rfl⟩
  | leave h hs => exact ⟨_, List.mem_filterMap.2 ⟨_, h, by rw [move?, hs]⟩, rfl⟩

/-! ### Consuming symbols -/

variable [DecidableEq σ] [SymbolSet τ σ]

/-- Consuming one symbol. -/
inductive Consumes (net : Network σ τ) : Configuration → σ → Configuration → Prop where
  | mk {c : Configuration} {label : Label σ τ} {target : StateId} {x : σ}
    (h : .consume label target ∈ net.transitions c.state) (hx : label.accepts x = true) :
    Consumes net c x (c.movedTo target)

/-- Reading a word: before each symbol come any number of moves, after the last symbol none. -/
inductive Reads (net : Network σ τ) : Configuration → List σ → Configuration → Prop where
  | nil (c : Configuration) : Reads net c [] c
  | cons {c c₁ c₂ c₃ : Configuration} {x : σ} {w : List σ} (hm : net.Reaches c c₁)
    (hx : net.Consumes c₁ x c₂) (h : Reads net c₂ w c₃) : Reads net c (x :: w) c₃

/-- What some seed reads a word to. -/
def Readable (net : Network σ τ) (seeds : List Configuration) (w : List σ) (c : Configuration) : Prop :=
  ∃ seed ∈ seeds, net.Reads seed w c

theorem reads_append_iff {net : Network σ τ} {u v : List σ} {c c' : Configuration} :
    net.Reads c (u ++ v) c' ↔ ∃ m, net.Reads c u m ∧ net.Reads m v c' := by
  constructor
  · intro h
    induction u generalizing c with
    | nil => exact ⟨c, .nil c, h⟩
    | cons x u ih =>
      cases h with
      | cons hm hx h =>
        obtain ⟨m, hu, hv⟩ := ih h
        exact ⟨m, .cons hm hx hu, hv⟩
  · rintro ⟨m, hu, hv⟩
    induction hu with
    | nil => exact hv
    | cons hm hx _ ih => exact .cons hm hx (ih hv)

/-- `step` crosses exactly the transitions that accept the symbol. -/
theorem mem_step_iff {net : Network σ τ} {frontier : List Configuration} {x : σ} {c : Configuration} :
    c ∈ net.step frontier x ↔ ∃ c₀ ∈ frontier, net.Consumes c₀ x c := by
  unfold step
  rw [ConfigurationSet.mem_toList_ofList, List.mem_flatMap]
  refine exists_congr fun c₀ => and_congr_right fun _ => ?_
  rw [List.mem_filterMap]
  constructor
  · rintro ⟨t, ht, hc⟩
    obtain ⟨target, htarget, rfl⟩ := Option.map_eq_some_iff.1 hc
    cases t with
    | consume label s =>
      simp only [Transition.target?] at htarget
      split at htarget
      · rename_i hx
        cases htarget
        exact .mk ht hx
      · cases htarget
    | _ => simp [Transition.target?] at htarget
  · rintro ⟨h, hx⟩
    exact ⟨_, h, by simp [Transition.target?, hx]⟩

end Network

end Typeahead
