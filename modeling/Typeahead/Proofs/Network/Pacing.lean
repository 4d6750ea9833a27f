import Mathlib.Data.List.Range
import Typeahead.Proofs.Grammar.Alphabet
import Typeahead.Proofs.Grammar.Residuals
import Typeahead.Proofs.Network.Additions
import Typeahead.Proofs.Network.CallFree

/-!
# How many states are met at a time

A network that spells many words has many states, but a run that has consumed `n` symbols meets only few of them: each
word is laid out as a chain, whose state number `n` is met after `n` symbols and at no other time (`Paced`).  So a
closure explores no more configurations than there are chains and states outside of them (`Paced.exhaustive_closure`),
however long the words are.  `exists_paced_layOutBodies` counts both for a network that is built from bodies.
-/

namespace Typeahead

variable {σ τ : Type}

/-! ### Patterns -/

namespace Pattern

variable {α ρ : Type}

mutual

/-- The number of states that a pattern is laid out with. -/
def stateCount : Pattern α ρ → Nat
  | .empty => 0
  | .atom _ => 1
  | .ref _ => 1
  | .seq items => stateCountOf items
  | .alt items => 2 + items.length + stateCountOf items
  | .optional body => 3 + stateCount body
  | .many body => 3 + stateCount body
  | .many1 body => 2 + stateCount body

/-- The number of states that the items of a list are laid out with. -/
def stateCountOf : List (Pattern α ρ) → Nat
  | [] => 0
  | p :: ps => stateCount p + stateCountOf ps

end

mutual

theorem all_of_refFree (p : Pattern α ρ) (h : p.refFree = true) : p.All (fun _ => True) fun _ => False := by
  match p with
  | .empty | .atom a => trivial
  | .ref r => cases h
  | .seq ps | .alt ps => exact allOf_of_allRefFree ps h
  | .optional p | .many p | .many1 p =>
    have hbody := all_of_refFree p h
    exact hbody

theorem allOf_of_allRefFree (ps : List (Pattern α ρ)) (h : allRefFree ps = true) :
    AllOf (fun _ => True) (fun _ => False) ps := by
  match ps with
  | [] => trivial
  | p :: ps =>
    rw [allRefFree, Bool.and_eq_true] at h
    exact ⟨all_of_refFree p h.1, allOf_of_allRefFree ps h.2⟩

end

end Pattern

namespace Network

mutual

theorem size_layOut (rule : RuleId) (p : ResolvedPattern σ τ) (entry : StateId) (net : Network σ τ) :
    (layOut rule p entry net).2.states.size = net.states.size + p.stateCount := by
  match p with
  | .empty => rfl
  | .atom label => simp [layOut, Pattern.stateCount]
  | .ref callee => simp [layOut, Pattern.stateCount]
  | .seq ps => exact size_layOutSequence rule ps entry net
  | .alt ps =>
    simp only [layOut, Pattern.stateCount, size_layOutAlternatives, size_states_addState, size_states_addTransition]
    omega
  | .optional p =>
    simp only [layOut, Pattern.stateCount, size_layOut, size_states_addState, size_states_addTransition]
    omega
  | .many p =>
    simp only [layOut, Pattern.stateCount, size_layOut, size_states_addState, size_states_addTransition]
    omega
  | .many1 p =>
    simp only [layOut, Pattern.stateCount, size_layOut, size_states_addState, size_states_addTransition]
    omega

theorem size_layOutSequence (rule : RuleId) (ps : List (ResolvedPattern σ τ)) (entry : StateId) (net : Network σ τ) :
    (layOutSequence rule ps entry net).2.states.size = net.states.size + Pattern.stateCountOf ps := by
  match ps with
  | [] => rfl
  | p :: ps =>
    simp only [layOutSequence, Pattern.stateCountOf, size_layOutSequence, size_layOut]
    omega

theorem size_layOutAlternatives (rule : RuleId) (ps : List (ResolvedPattern σ τ)) (decision exit : StateId)
    (net : Network σ τ) : (layOutAlternatives rule ps decision exit net).states.size =
      net.states.size + (ps.length + Pattern.stateCountOf ps) := by
  match ps with
  | [] => rfl
  | p :: ps =>
    simp only [layOutAlternatives, Pattern.stateCountOf, size_layOutAlternatives, size_layOut, size_states_addState,
      size_states_addTransition, List.length_cons]
    omega

end

/-! ### Paces -/

/-- The state is met at any time, or after `n` symbols. -/
def OnTime (pace : List (Option Nat)) (n : Nat) (s : StateId) : Prop :=
  pace[s]? = some none ∨ pace[s]? = some (some n)

/-- The number of states that are on time after `n` symbols. -/
def width (pace : List (Option Nat)) (n : Nat) : Nat := pace.countP fun x => x = none ∨ x = some n

/-- No rule is called, and with `pace` each run is on time: a state with the pace `some n` is met after `n` symbols
only, and a state with the pace `none` may be met at any time. -/
structure Paced (net : Network σ τ) (pace : List (Option Nat)) : Prop where
  length_eq : pace.length = net.states.size
  epsilon : ∀ {s t n}, .epsilon t ∈ net.transitions s → OnTime pace n s → OnTime pace n t
  consume : ∀ {s t n label}, .consume label t ∈ net.transitions s → OnTime pace n s → OnTime pace (n + 1) t
  call : ∀ {s callee follow}, .call callee follow ∉ net.transitions s

variable {net : Network σ τ} {pace added : List (Option Nat)} {n k : Nat} {s t entry decision exit : StateId}

theorem OnTime.lt_length (h : OnTime pace n s) : s < pace.length := by
  rcases h with h | h
  · exact (List.getElem?_eq_some_iff.1 h).1
  · exact (List.getElem?_eq_some_iff.1 h).1

theorem onTime_append_iff (hs : s < pace.length) : OnTime (pace ++ added) n s ↔ OnTime pace n s := by
  rw [OnTime, OnTime, List.getElem?_append_left hs]

theorem OnTime.append (h : OnTime pace n s) (added : List (Option Nat)) : OnTime (pace ++ added) n s :=
  (onTime_append_iff h.lt_length).2 h

theorem OnTime.eq (h : OnTime pace n s) (hs : pace[s]? = some (some k)) : n = k := by
  rcases h with h | h
  · cases h.symm.trans hs
  · cases h.symm.trans hs
    rfl

theorem width_append (pace added : List (Option Nat)) (n : Nat) :
    width (pace ++ added) n = width pace n + width added n := List.countP_append ..

theorem width_le_length (pace : List (Option Nat)) (n : Nat) : width pace n ≤ pace.length := List.countP_le_length

/-! ### Growing networks -/

theorem Paced.addState (h : net.Paced pace) (rule : RuleId) (kind : StateKind) (x : Option Nat) :
    (net.addState rule kind).2.Paced (pace ++ [x]) := by
  have hlt : ∀ {s t}, t ∈ net.transitions s → s < pace.length := fun ht => h.length_eq ▸ lt_size_of_mem_transitions ht
  refine ⟨?_, fun ht hs => ?_, fun ht hs => ?_, fun ht => ?_⟩
  · rw [List.length_append, size_states_addState, h.length_eq, List.length_singleton]
  · rw [transitions_addState] at ht
    exact (h.epsilon ht ((onTime_append_iff (hlt ht)).1 hs)).append _
  · rw [transitions_addState] at ht
    exact (h.consume ht ((onTime_append_iff (hlt ht)).1 hs)).append _
  · rw [transitions_addState] at ht
    exact h.call ht

theorem Paced.addEpsilon (h : net.Paced pace) (hs : s < net.states.size)
    (ht : ∀ n, OnTime pace n s → OnTime pace n t) : (net.addTransition s (.epsilon t)).Paced pace := by
  refine ⟨?_, fun ht' hn => ?_, fun ht' hn => ?_, fun ht' => ?_⟩
  · rw [size_states_addTransition, h.length_eq]
  · rcases (mem_transitions_addTransition hs).1 ht' with ht' | ⟨rfl, he⟩
    · exact h.epsilon ht' hn
    · cases he
      exact ht _ hn
  · rcases (mem_transitions_addTransition hs).1 ht' with ht' | ⟨-, he⟩
    · exact h.consume ht' hn
    · cases he
  · rcases (mem_transitions_addTransition hs).1 ht' with ht' | ⟨-, he⟩
    · exact h.call ht'
    · cases he

theorem Paced.addConsume (h : net.Paced pace) (hs : s < net.states.size) (label : Label σ τ)
    (ht : ∀ n, OnTime pace n s → OnTime pace (n + 1) t) : (net.addTransition s (.consume label t)).Paced pace := by
  refine ⟨?_, fun ht' hn => ?_, fun ht' hn => ?_, fun ht' => ?_⟩
  · rw [size_states_addTransition, h.length_eq]
  · rcases (mem_transitions_addTransition hs).1 ht' with ht' | ⟨-, he⟩
    · exact h.epsilon ht' hn
    · cases he
  · rcases (mem_transitions_addTransition hs).1 ht' with ht' | ⟨rfl, he⟩
    · exact h.consume ht' hn
    · cases he
      exact ht _ hn
  · rcases (mem_transitions_addTransition hs).1 ht' with ht' | ⟨-, he⟩
    · exact h.call ht'
    · cases he

/-! ### Laying out -/

/-- States that may be met at any time are good for each pattern. -/
private theorem Paced.layOut_any (h : net.Paced pace) {p : ResolvedPattern σ τ} (hp : p.refFree = true)
    (rule : RuleId) (hentry : entry < pace.length) :
    (layOut rule p entry net).2.Paced (pace ++ List.replicate p.stateCount none) := by
  have K : KeptWithin (fun _ => True) (fun _ => False) (fun a b : Network σ τ => b = a ∧ pace.length ≤ a.states.size ∧
      ∃ m, a.Paced (pace ++ List.replicate m none)) rule entry pace.length := by
    refine ⟨fun h => by rw [h.1], fun h => h.2.1, ?_, ?_⟩
    · rintro a b kind ⟨rfl, hle, m, ha⟩
      refine ⟨rfl, ?_, m + 1, ?_⟩
      · rw [size_states_addState]
        exact Nat.le_succ_of_le hle
      · rw [List.replicate_succ', ← List.append_assoc]
        exact ha.addState rule kind none
    · rintro a b s u t ⟨rfl, hle, m, ha⟩ - hs hu hold hlt ht
      refine ⟨rfl, ?_, m, ?_⟩
      · rw [size_states_addTransition]
        exact hle
      · -- the transition leads to a state that has been added
        have hnone : (pace ++ List.replicate m none)[u]? = some none := by
          have hm : u - pace.length < m := by
            rw [← ha.length_eq, List.length_append, List.length_replicate] at hlt
            exact (Nat.sub_lt_iff_lt_add' hold).2 hlt
          rw [List.getElem?_append_right hold, List.getElem?_replicate, if_pos hm]
        cases t with
        | epsilon target =>
          cases hu
          exact ha.addEpsilon hs fun _ _ => Or.inl hnone
        | consume label target =>
          cases hu
          exact ha.addConsume hs label fun _ _ => Or.inl hnone
        | call callee follow => exact ht.elim
        | leave => cases hu
  have hzero : net.Paced (pace ++ List.replicate 0 none) := by rwa [List.replicate_zero, List.append_nil]
  obtain ⟨⟨-, -, m, ha⟩, -⟩ :=
    K.layOut p (p.all_of_refFree hp) ⟨rfl, Nat.le_of_eq h.length_eq, 0, hzero⟩ (Or.inl rfl)
      (h.length_eq ▸ hentry)
  have hlen := ha.length_eq
  rw [List.length_append, List.length_replicate, size_layOut, h.length_eq] at hlen
  obtain rfl : m = p.stateCount := Nat.add_left_cancel hlen
  exact ha

/-- Atoms one behind the other are laid out as a chain. -/
private theorem Paced.layOut_atoms (h : net.Paced pace) (rule : RuleId) (as : List (Label σ τ))
    (hentry : pace[entry]? = some (some k)) :
    (layOutSequence rule (as.map .atom) entry net).2.Paced (pace ++ (List.range' (k + 1) as.length).map some) ∧
      (layOutSequence rule (as.map .atom) entry net).1 <
        (layOutSequence rule (as.map .atom) entry net).2.states.size := by
  have hlt := (List.getElem?_eq_some_iff.1 hentry).1
  induction as generalizing net pace entry k with
  | nil =>
    rw [List.length_nil, List.range'_zero, List.map_nil, List.map_nil, List.append_nil]
    exact ⟨h, h.length_eq ▸ hlt⟩
  | cons a as ih =>
    have hnext : (pace ++ [some (k + 1)])[net.states.size]? = some (some (k + 1)) := by
      rw [← h.length_eq, List.getElem?_concat_length]
    have h₁ := h.addState rule .basic (some (k + 1))
    have hnew : entry < (net.addState rule .basic).2.states.size := by
      rw [size_states_addState, ← h.length_eq]
      exact Nat.lt_succ_of_lt hlt
    have h₂ := h₁.addConsume hnew a fun n hn => by
      obtain rfl := OnTime.eq ((onTime_append_iff hlt).1 hn) hentry
      exact Or.inr hnext
    obtain ⟨h₃, hexit⟩ := ih h₂ hnext (List.getElem?_eq_some_iff.1 hnext).1
    rw [List.length_cons, List.range'_succ, List.map_cons]
    rw [List.append_assoc] at h₃
    exact ⟨h₃, hexit⟩

/-- The paces of a word: those of its characters, and before them that of its first state. -/
private def chain (w : List (Label σ τ)) : List (Option Nat) := (List.range' 0 (w.length + 1)).map some

private theorem layOut_word (rule : RuleId) (w : List (Label σ τ)) (entry : StateId) (net : Network σ τ) :
    layOut rule (.word w) entry net = layOutSequence rule (w.map .atom) entry net := by
  match w with
  | [] => rfl
  | [a] => rfl
  | a :: b :: w => rfl

/-- Words side by side are laid out as one chain each. -/
private theorem Paced.layOut_words (h : net.Paced pace) (rule : RuleId) (ws : List (List (Label σ τ)))
    (hdecision : pace[decision]? = some (some 0)) (hexit : pace[exit]? = some none) :
    (layOutAlternatives rule (ws.map .word) decision exit net).Paced (pace ++ ws.flatMap chain) := by
  induction ws generalizing net pace with
  | nil =>
    rw [List.flatMap_nil, List.append_nil]
    exact h
  | cons w ws ih =>
    have hlt := (List.getElem?_eq_some_iff.1 hdecision).1
    have hexit' := (List.getElem?_eq_some_iff.1 hexit).1
    have hnew : decision < (net.addState rule .basic).2.states.size := by
      rw [size_states_addState, ← h.length_eq]
      exact Nat.lt_succ_of_lt hlt
    have hbranch : (pace ++ [some 0])[net.states.size]? = some (some 0) := by
      rw [← h.length_eq, List.getElem?_concat_length]
    have h₁ := (h.addState rule .basic (some 0)).addEpsilon hnew fun n hn => by
      obtain rfl := OnTime.eq ((onTime_append_iff hlt).1 hn) hdecision
      exact Or.inr hbranch
    obtain ⟨h₂, hlast⟩ := h₁.layOut_atoms rule w hbranch
    have hchain : pace ++ [some 0] ++ (List.range' (0 + 1) w.length).map some = pace ++ chain w := by
      rw [chain, List.range'_succ, List.map_cons, List.append_assoc, List.singleton_append]
    rw [hchain] at h₂
    have hexit₂ : (pace ++ chain w)[exit]? = some none := by rw [List.getElem?_append_left hexit', hexit]
    have h₃ := ih (h₂.addEpsilon hlast fun _ _ => Or.inl hexit₂)
      (by rw [List.getElem?_append_left hlt, hdecision]) hexit₂
    rw [List.append_assoc, ← List.flatMap_cons] at h₃
    simpa only [List.map_cons, layOutAlternatives, layOut_word, fst_addState] using h₃

/-- A chain has one state for each time. -/
private theorem width_chain_le (w : List (Label σ τ)) (n : Nat) : width (chain w) n ≤ 1 := by
  have hcount : width (chain w) n = (List.range' 0 (w.length + 1)).count n := by
    rw [width, chain, List.countP_map, List.count_eq_countP]
    refine List.countP_congr fun x _ => ?_
    simp
  rw [hcount]
  exact List.nodup_iff_count_le_one.1 List.nodup_range' n

private theorem width_chains_le (ws : List (List (Label σ τ))) (n : Nat) : width (ws.flatMap chain) n ≤ ws.length := by
  induction ws with
  | nil => exact Nat.le_refl 0
  | cons w ws ih =>
    rw [List.flatMap_cons, width_append, List.length_cons]
    have := width_chain_le w n
    omega

/-- At most `m` states of a pattern are met at a time: words side by side count once each, other patterns with all their
states. -/
inductive Crowds (m : Nat) : ResolvedPattern σ τ → Prop where
  | words (ws : List (List (Label σ τ))) (hm : ws.length + 2 ≤ m) : Crowds m (.alt (ws.map .word))
  | any {p : ResolvedPattern σ τ} (hp : p.refFree = true) (hm : p.stateCount ≤ m) : Crowds m p

variable {rule : RuleId} {p : ResolvedPattern σ τ} {info : Rule} {m : Nat}

theorem Paced.layOut (h : net.Paced pace) (hp : Crowds m p) (rule : RuleId) (hentry : pace[entry]? = some (some 0)) :
    ∃ added, (layOut rule p entry net).2.Paced (pace ++ added) ∧ ∀ n, width added n ≤ m := by
  have hlt := (List.getElem?_eq_some_iff.1 hentry).1
  cases hp with
  | any hp hm =>
    refine ⟨_, h.layOut_any hp rule hlt, fun n => (width_le_length _ n).trans ?_⟩
    rwa [List.length_replicate]
  | words ws hm =>
    have hnew : entry < (net.addState rule .decision).2.states.size := by
      rw [size_states_addState, ← h.length_eq]
      exact Nat.lt_succ_of_lt hlt
    have hdecision : (pace ++ [some 0])[net.states.size]? = some (some 0) := by
      rw [← h.length_eq, List.getElem?_concat_length]
    have h₁ := (h.addState rule .decision (some 0)).addEpsilon hnew fun n hn => by
      obtain rfl := OnTime.eq ((onTime_append_iff hlt).1 hn) hentry
      exact Or.inr hdecision
    have h₂ := h₁.addState rule .basic none
    have hlen : (pace ++ [some 0]).length = net.states.size + 1 := by
      rw [List.length_append, List.length_singleton, h.length_eq]
    have hexit : (pace ++ [some 0] ++ [none])[net.states.size + 1]? = some none := by
      rw [← hlen, List.getElem?_concat_length]
    have hdecision' : (pace ++ [some 0] ++ [none])[net.states.size]? = some (some 0) := by
      rw [List.getElem?_append_left (hlen ▸ Nat.lt_succ_self _), hdecision]
    have h₃ := h₂.layOut_words rule ws hdecision' hexit
    rw [List.append_assoc, List.append_assoc, ← List.append_assoc [some 0]] at h₃
    refine ⟨[some 0] ++ [none] ++ ws.flatMap chain, ?_, fun n => ?_⟩
    · simpa only [Network.layOut, fst_addState, size_states_addState, size_states_addTransition] using h₃
    · rw [width_append]
      have hends := width_le_length ([some 0] ++ [none]) n
      have hchains := width_chains_le ws n
      rw [List.length_append, List.length_singleton, List.length_singleton] at hends
      omega

theorem Paced.layOutRule (h : net.Paced pace) (hp : Crowds m p) (hinfo : net.rules[rule]? = some info)
    (hstart : pace[info.start]? = some (some 0)) (hstop : pace[info.stop]? = some none) :
    ∃ added, (net.layOutRule rule p).Paced (pace ++ added) ∧ ∀ n, width added n ≤ m := by
  obtain ⟨added, hadded, hwidth⟩ := h.layOut hp rule hstart
  have hlt := (List.getElem?_eq_some_iff.1 hstart).1
  have hlt' := (List.getElem?_eq_some_iff.1 hstop).1
  obtain ⟨-, hlast, -⟩ := layOut_spans rule p (h.length_eq ▸ hlt)
  refine ⟨added, ?_, hwidth⟩
  rw [layOutRule_eq p hinfo]
  exact hadded.addEpsilon hlast fun _ _ => Or.inl (by rw [List.getElem?_append_left hlt', hstop])

/-- All bodies together crowd no more than each by itself. -/
private theorem Paced.foldl_layOutRule {l : List (ResolvedPattern σ τ × RuleId)} (h : net.Paced pace)
    (hl : ∀ x ∈ l, Crowds m x.1 ∧ ∃ info, net.rules[x.2]? = some info ∧ pace[info.start]? = some (some 0) ∧
      pace[info.stop]? = some none) :
    ∃ added, (l.foldl (fun net (p, rule) => net.layOutRule rule p) net).Paced (pace ++ added) ∧
      ∀ n, width added n ≤ l.length * m := by
  induction l generalizing net pace with
  | nil => exact ⟨[], by rwa [List.append_nil], fun n => Nat.zero_le _⟩
  | cons x l ih =>
    obtain ⟨⟨hx, info, hrule, hstart, hstop⟩, hrest⟩ := List.forall_mem_cons.1 hl
    obtain ⟨added, h₁, hwidth⟩ := h.layOutRule hx hrule hstart hstop
    have hrules : (net.layOutRule x.2 x.1).rules = net.rules := by
      have hlt := (List.getElem?_eq_some_iff.1 hstart).1
      exact (layOutRule_spans x.1 hrule (h.length_eq ▸ hlt)).1.rules
    obtain ⟨added', h₂, hwidth'⟩ := ih h₁ fun y hy => by
      obtain ⟨hy, info, hrule, hstart, hstop⟩ := hrest y hy
      have hlt := (List.getElem?_eq_some_iff.1 hstart).1
      have hlt' := (List.getElem?_eq_some_iff.1 hstop).1
      exact ⟨hy, info, hrules ▸ hrule, by rw [List.getElem?_append_left hlt, hstart],
        by rw [List.getElem?_append_left hlt', hstop]⟩
    rw [List.append_assoc] at h₂
    refine ⟨added ++ added', h₂, fun n => ?_⟩
    rw [width_append, List.length_cons, Nat.succ_mul, Nat.add_comm]
    exact Nat.add_le_add (hwidth' n) (hwidth n)

/-- The paces of the end points of declared rules. -/
private def endPaces (rules : Nat) : List (Option Nat) :=
  (List.range (2 * rules)).map fun s => if s % 2 = 0 then some 0 else none

private theorem getElem?_endPaces {rules i : Nat} (hi : i < rules) :
    (endPaces rules)[2 * i]? = some (some 0) ∧ (endPaces rules)[2 * i + 1]? = some none := by
  have hstart : 2 * i < 2 * rules := by omega
  have hstop : 2 * i + 1 < 2 * rules := by omega
  simp [endPaces, hstart, hstop]

private theorem Declares.paced {names : List String} (h : net.Declares names) : net.Paced (endPaces names.length) := by
  have hleave : ∀ {s t}, t ∈ net.transitions s → t = .leave := fun ht => ((h.mem_transitions _ _).1 ht).2.2
  refine ⟨?_, fun ht => ?_, fun ht => ?_, fun ht => ?_⟩
  · rw [endPaces, List.length_map, List.length_range, h.size_states]
  · cases hleave ht
  · cases hleave ht
  · cases hleave ht

/-- In a network built from bodies without references, the rules begin in time, and the states that are met at a time
are counted body by body. -/
theorem exists_paced_layOutBodies (names : List String) {bodies : List (ResolvedPattern σ τ)}
    (hb : ∀ p ∈ bodies, Crowds m p) (hlen : bodies.length ≤ names.length) :
    ∃ pace, (Declarations.layOutBodies (Declarations.declareRules names) bodies).Paced pace ∧
      (∀ i < names.length, pace[2 * i]? = some (some 0)) ∧
      ∀ n, width pace n ≤ 2 * names.length + bodies.length * m := by
  have hdeclared : (Declarations.declareRules names : Network σ τ).Declares names := declares_declareRules names
  obtain ⟨added, hpaced, hwidth⟩ := hdeclared.paced.foldl_layOutRule (l := bodies.zipIdx) fun x hx => by
    have hlt : x.2 < names.length := by
      have hnumber := List.snd_lt_of_mem_zipIdx hx
      rw [Nat.add_zero] at hnumber
      exact Nat.lt_of_lt_of_le hnumber hlen
    obtain ⟨hstart, hstop⟩ := getElem?_endPaces hlt
    refine ⟨hb _ (List.fst_mem_of_mem_zipIdx hx), ⟨names[x.2], 2 * x.2, 2 * x.2 + 1⟩, ?_, hstart, hstop⟩
    rw [hdeclared.rules, List.getElem?_eq_getElem hlt]
    rfl
  refine ⟨_, hpaced, fun i hi => ?_, fun n => ?_⟩
  · have hstart := (getElem?_endPaces hi).1
    rw [List.getElem?_append_left (List.getElem?_eq_some_iff.1 hstart).1, hstart]
  · rw [width_append]
    have hends := width_le_length (endPaces names.length) n
    rw [endPaces, List.length_map, List.length_range] at hends
    rw [← bodies.length_zipIdx]
    exact Nat.add_le_add hends (hwidth n)

/-! ### Closures -/

/-- The configuration of a run that is on time. -/
def Meets (pace : List (Option Nat)) (n : Nat) (c : Configuration) : Prop := OnTime pace n c.state ∧ c.stack = []

variable {c c' : Configuration} {seeds frontier : List Configuration} {limits : Limits}

theorem Meets.move (h : Meets pace n c) (hp : net.Paced pace) (hm : net.Move c c') : Meets pace n c' := by
  obtain ⟨s, stack⟩ := c
  obtain ⟨hs, rfl⟩ := h
  cases hm with
  | epsilon ht => exact ⟨hp.epsilon ht hs, rfl⟩
  | call ht => exact absurd ht hp.call
  | leave _ hpop => cases hpop

theorem Meets.reaches (h : Meets pace n c) (hp : net.Paced pace) (hm : net.Reaches c c') : Meets pace n c' := by
  induction hm with
  | refl => exact h
  | tail _ hm ih => exact ih.move hp hm

theorem meets_of_mem_visited (hp : net.Paced pace) (hs : ∀ c ∈ seeds, Meets pace n c)
    (hc : c ∈ (net.closure limits seeds).visited) : Meets pace n c := by
  obtain ⟨seed, hseed, hm⟩ := reachable_of_mem_visited hc
  exact (hs seed hseed).reaches hp hm

theorem Paced.callFree (hp : net.Paced pace) : net.CallFree := by
  intro state hstate t ht
  obtain ⟨s, hs⟩ := Array.mem_iff_getElem?.1 (Array.mem_toList_iff.1 hstate)
  rw [← transitions_of_getElem? hs] at ht
  cases t with
  | call callee follow => exact absurd ht hp.call
  | _ => rfl

/-- A closure explores no more configurations than there are states that are on time. -/
theorem length_visited_le_width (hp : net.Paced pace) (hs : ∀ c ∈ seeds, Meets pace n c) :
    (net.closure limits seeds).visited.length ≤ width pace n := by
  have hsub : (net.closure limits seeds).visited ⊆
      (pace.zipIdx.filter fun x => x.1 = none ∨ x.1 = some n).map fun x => .initial x.2 := by
    rintro ⟨s, stack⟩ hc
    obtain ⟨htime, rfl⟩ := meets_of_mem_visited hp hs hc
    obtain ⟨x, hx, hor⟩ : ∃ x, pace[s]? = some x ∧ (x = none ∨ x = some n) := by
      rcases htime with h | h
      · exact ⟨none, h, Or.inl rfl⟩
      · exact ⟨some n, h, Or.inr rfl⟩
    refine List.mem_map.2 ⟨(x, s), List.mem_filter.2 ⟨List.mem_zipIdx_iff_getElem?.2 hx, ?_⟩, rfl⟩
    exact decide_eq_true hor
  calc (net.closure limits seeds).visited.length
      ≤ ((pace.zipIdx.filter fun x => x.1 = none ∨ x.1 = some n).map fun x => Configuration.initial x.2).length :=
        (List.subperm_of_subset nodup_visited hsub).length_le
    _ = (pace.zipIdx.map (·.1)).countP (fun x => x = none ∨ x = some n) := by
        rw [List.length_map, List.countP_map, List.countP_eq_length_filter]
        rfl
    _ = width pace n := by rw [List.zipIdx_map_fst, width]

/-- If fewer states are on time than configurations may be explored, all that is reachable is explored. -/
theorem Paced.exhaustive_closure (hp : net.Paced pace) (hr : 1 ≤ limits.reentry)
    (hlt : width pace n < limits.configurations) (hs : ∀ c ∈ seeds, Meets pace n c) :
    (net.closure limits seeds).Exhaustive := by
  refine ⟨prunedCalls_closure_eq_zero hp.callFree.noLeftCycle hr seeds, ?_⟩
  by_contra hb
  have hcut := le_length_of_bound_ne_none hb
  have hle : (net.closure limits seeds).visited.length ≤ width pace n := length_visited_le_width hp hs
  omega

theorem meets_of_mem_step [DecidableEq σ] [SymbolSet τ σ] (hp : net.Paced pace)
    (hs : ∀ c ∈ frontier, Meets pace n c) {x : σ} (hc : c ∈ net.step frontier x) : Meets pace (n + 1) c := by
  obtain ⟨c₀, hc₀, hx⟩ := mem_step_iff.1 hc
  obtain ⟨htime, hstack⟩ := hs c₀ hc₀
  cases hx with
  | mk ht => exact ⟨hp.consume ht htime, hstack⟩

end Network

end Typeahead
