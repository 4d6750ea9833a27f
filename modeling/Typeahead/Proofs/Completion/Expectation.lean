import Typeahead.Completion.Expectation
import Typeahead.Proofs.Except
import Typeahead.Proofs.Network.Exploration

/-!
# Expectations and simulations agree

`Grammar.expectation` collects kinds from the frontier of a closure, and `Grammar.simulate` steps across the same
frontier.  The main facts: the collected kinds are those that some configuration of the frontier consumes
(`mem_kinds_iff`) and come in ascending order (`pairwise_kinds`), a simulation of a longer text goes on from the end of
the shorter one (`simulateFrom_append_of_ok`), and so one more token is read exactly if its kind is expected, whatever
the limits (`simulate_agrees_expectation`).
-/

namespace Typeahead

/-! ### Sorting and grouping -/

private theorem mem_eraseReps_loop {α : Type} [BEq α] [LawfulBEq α] {x a : α} {xs acc : List α} :
    x ∈ List.eraseRepsBy.loop (· == ·) a xs acc ↔ x ∈ acc ∨ x = a ∨ x ∈ xs := by
  induction xs generalizing a acc with
  | nil => simp [List.eraseRepsBy.loop, or_comm]
  | cons b xs ih =>
    unfold List.eraseRepsBy.loop
    split
    · rename_i hab
      rw [ih, eq_of_beq hab, List.mem_cons, or_self_left]
    · rw [ih, List.mem_cons, List.mem_cons, or_assoc, or_left_comm]

private theorem mem_eraseReps {α : Type} [BEq α] [LawfulBEq α] {x : α} {xs : List α} :
    x ∈ xs.eraseReps ↔ x ∈ xs := by
  cases xs with
  | nil => rfl
  | cons a xs =>
    show x ∈ List.eraseRepsBy.loop (· == ·) a xs [] ↔ _
    rw [mem_eraseReps_loop, List.mem_cons]
    simp

theorem mem_sortedDistinct {α : Type} [BEq α] [LawfulBEq α] {le : α → α → Bool} {xs : List α} {x : α} :
    x ∈ sortedDistinct le xs ↔ x ∈ xs := by
  unfold sortedDistinct
  rw [mem_eraseReps, List.mem_mergeSort]

private theorem exists_eraseReps_loop {α : Type} [BEq α] (a : α) (xs acc : List α) :
    ∃ ys, List.eraseRepsBy.loop (· == ·) a xs acc = acc.reverse ++ ys ∧ ys.Sublist (a :: xs) := by
  induction xs generalizing a acc with
  | nil => exact ⟨[a], List.reverse_cons, List.Sublist.refl _⟩
  | cons b xs ih =>
    unfold List.eraseRepsBy.loop
    split
    · obtain ⟨ys, hys, hsub⟩ := ih a acc
      exact ⟨ys, hys, hsub.trans ((List.sublist_cons_self b xs).cons_cons a)⟩
    · obtain ⟨ys, hys, hsub⟩ := ih b (a :: acc)
      refine ⟨a :: ys, ?_, hsub.cons_cons a⟩
      rw [hys, List.reverse_cons, List.append_assoc, List.singleton_append]

theorem sublist_sortedDistinct {α : Type} [BEq α] (le : α → α → Bool) (xs : List α) :
    (sortedDistinct le xs).Sublist (xs.mergeSort le) := by
  unfold sortedDistinct
  cases xs.mergeSort le with
  | nil => exact List.Sublist.refl _
  | cons a xs =>
    obtain ⟨ys, hys, hsub⟩ := exists_eraseReps_loop a xs []
    rw [List.reverse_nil, List.nil_append] at hys
    show (List.eraseRepsBy.loop (· == ·) a xs []).Sublist _
    rwa [hys]

/-- Grouping keeps the kinds. -/
theorem mem_map_groupByKind {kind : TokenKind} {pairs : List (TokenKind × StateId)} :
    kind ∈ (groupByKind pairs).map (·.1) ↔ kind ∈ pairs.map (·.1) := by
  induction pairs with
  | nil => rfl
  | cons pair pairs ih =>
    obtain ⟨k, s⟩ := pair
    rw [List.map_cons, List.mem_cons, ← ih, groupByKind]
    cases groupByKind pairs with
    | nil => simp
    | cons group groups =>
      obtain ⟨next, states⟩ := group
      by_cases hk : k = next
      · simp [hk]
      · simp [hk]

/-- Groups of neighbours with the same kind have distinct kinds if the kinds are sorted. -/
theorem pairwise_groupByKind {pairs : List (TokenKind × StateId)} (h : pairs.Pairwise fun a b => a.1 ≤ b.1) :
    ((groupByKind pairs).map (·.1)).Pairwise (· < ·) := by
  induction pairs with
  | nil => exact .nil
  | cons pair pairs ih =>
    obtain ⟨kind, state⟩ := pair
    obtain ⟨hle, hrest⟩ := List.pairwise_cons.1 h
    have hle' : ∀ k ∈ (groupByKind pairs).map (·.1), kind ≤ k := by
      intro k hk
      obtain ⟨pair, hpair, rfl⟩ := List.mem_map.1 (mem_map_groupByKind.1 hk)
      exact hle pair hpair
    have ih := ih hrest
    rw [groupByKind]
    generalize groupByKind pairs = groups at ih hle'
    cases groups with
    | nil => exact List.pairwise_singleton _ _
    | cons group groups =>
      obtain ⟨next, states⟩ := group
      by_cases hk : kind = next
      · simp only [if_pos hk]
        subst hk
        exact ih
      · simp only [if_neg hk]
        have hlt : kind < next := lt_of_le_of_ne (hle' next (List.mem_cons_self ..)) hk
        refine List.pairwise_cons.2 ⟨fun k hk' => ?_, ih⟩
        rcases List.mem_cons.1 hk' with rfl | hk'
        · exact hlt
        · exact hlt.trans ((List.pairwise_cons.1 ih).1 k hk')

private theorem lexicographic_trans {k l m s t u : Nat} (hkl : k < l ∨ k = l ∧ s ≤ t) (hlm : l < m ∨ l = m ∧ t ≤ u) :
    k < m ∨ k = m ∧ s ≤ u := by
  omega

private theorem lexicographic_total (k l s t : Nat) : (k < l ∨ k = l ∧ s ≤ t) ∨ (l < k ∨ l = k ∧ t ≤ s) := by
  omega

theorem Transition.mem_kinds_iff {kind : TokenKind} {t : Transition TokenKind (List TokenKind)} :
    kind ∈ t.kinds ↔ ∃ label target, t = .consume label target ∧ label.accepts kind = true := by
  cases t with
  | consume label target =>
    cases label with
    | symbol s => simp [kinds, Label.accepts, @eq_comm _ kind]
    | oneOf set => simp [kinds, Label.accepts, SymbolSet.contains]
  | _ => simp [kinds]

namespace Grammar

variable {g : Grammar} {limits : Limits} {configs : List Configuration}

/-- The expected kinds are those that the frontier consumes. -/
theorem mem_kinds_iff {kind : TokenKind} :
    kind ∈ (g.expectation limits configs).kinds ↔
      ∃ c ∈ (g.phrase.closure limits configs).frontier, ∃ c', g.phrase.Consumes c kind c' := by
  unfold expectation Expectation.kinds
  rw [mem_map_groupByKind]
  simp only [List.mem_map, mem_sortedDistinct, List.mem_flatMap]
  constructor
  · rintro ⟨⟨k, s⟩, ⟨s', ⟨c, hc, rfl⟩, t, ht, k', hk, he⟩, rfl⟩
    cases he
    obtain ⟨label, target, rfl, hx⟩ := Transition.mem_kinds_iff.1 hk
    exact ⟨c, hc, _, .mk ht hx⟩
  · rintro ⟨c, hc, c', hx⟩
    cases hx with
    | mk ht hx =>
      rename_i label target
      have hkind : kind ∈ (Transition.consume label target).kinds := Transition.mem_kinds_iff.2 ⟨_, _, rfl, hx⟩
      exact ⟨(kind, c.state), ⟨c.state, ⟨c, hc, rfl⟩, _, ht, kind, hkind, rfl⟩, rfl⟩

/-- A kind is expected exactly if the frontier can step across it. -/
theorem mem_kinds_iff_step_ne_nil {kind : TokenKind} :
    kind ∈ (g.expectation limits configs).kinds ↔
      g.phrase.step (g.phrase.closure limits configs).frontier kind ≠ [] := by
  rw [mem_kinds_iff, ← List.length_pos_iff, List.length_pos_iff_exists_mem]
  simp only [Network.mem_step_iff]
  constructor
  · rintro ⟨c, hc, c', hx⟩
    exact ⟨c', c, hc, hx⟩
  · rintro ⟨c', c, hc, hx⟩
    exact ⟨c, hc, c', hx⟩

/-- The expected kinds are strictly ascending. -/
theorem pairwise_kinds (g : Grammar) (limits : Limits) (configs : List Configuration) :
    (g.expectation limits configs).kinds.Pairwise (· < ·) := by
  refine pairwise_groupByKind (List.Pairwise.sublist (sublist_sortedDistinct _ _) ?_)
  refine (List.pairwise_mergeSort ?_ ?_ _).imp ?_
  · rintro ⟨k, s⟩ ⟨l, t⟩ ⟨m, u⟩ hkl hlm
    simp only [decide_eq_true_eq] at hkl hlm ⊢
    exact lexicographic_trans hkl hlm
  · rintro ⟨k, s⟩ ⟨l, t⟩
    simp only [Bool.or_eq_true, decide_eq_true_eq]
    exact lexicographic_total k l s t
  · rintro ⟨k, s⟩ ⟨l, t⟩ hkl
    simp only [decide_eq_true_eq] at hkl
    exact hkl.elim Nat.le_of_lt fun h => Nat.le_of_eq h.1

/-! ### Simulations -/

/-- One token that is expected. -/
theorem simulateFrom_cons_of_mem {index : Nat} {x : Token} {w : List Token}
    (h : x.kind ∈ (g.expectation limits configs).kinds) :
    g.simulateFrom limits index configs (x :: w) =
      (g.simulateFrom limits (index + 1) (g.phrase.step (g.phrase.closure limits configs).frontier x.kind) w).map
        fun s => { s with stats := (g.phrase.closure limits configs).stats + s.stats } := by
  rw [mem_kinds_iff_step_ne_nil] at h
  rw [simulateFrom]
  split
  · contradiction
  · rfl

/-- One token that is not expected. -/
theorem simulateFrom_cons_of_not_mem {index : Nat} {x : Token} {w : List Token}
    (h : x.kind ∉ (g.expectation limits configs).kinds) :
    g.simulateFrom limits index configs (x :: w) = .error ⟨index, x.text, g.displayName x.kind⟩ := by
  rw [mem_kinds_iff_step_ne_nil, not_not] at h
  rw [simulateFrom, h]

/-- Nothing is read behind a token that cannot be read. -/
theorem simulateFrom_append_of_error {index : Nat} {w : List Token} {e : NoViableParse}
    (h : g.simulateFrom limits index configs w = .error e) (u : List Token) :
    g.simulateFrom limits index configs (w ++ u) = .error e := by
  induction w generalizing index configs with
  | nil => cases h
  | cons x w ih =>
    rw [List.cons_append]
    by_cases hx : x.kind ∈ (g.expectation limits configs).kinds
    · rw [simulateFrom_cons_of_mem hx] at h ⊢
      rw [except_map_eq_error] at h ⊢
      exact ih h
    · rw [simulateFrom_cons_of_not_mem hx] at h ⊢
      exact h

/-- Reading goes on in the configurations reached so far. -/
theorem simulateFrom_append_of_ok {index : Nat} {w : List Token} {s : Simulation}
    (h : g.simulateFrom limits index configs w = .ok s) (u : List Token) :
    (g.simulateFrom limits index configs (w ++ u)).map (·.configurations) =
      (g.simulateFrom limits (index + w.length) s.configurations u).map (·.configurations) := by
  induction w generalizing index configs s with
  | nil =>
    cases h
    rfl
  | cons x w ih =>
    rw [List.cons_append, List.length_cons, Nat.add_comm w.length, ← Nat.add_assoc]
    by_cases hx : x.kind ∈ (g.expectation limits configs).kinds
    · rw [simulateFrom_cons_of_mem hx] at h ⊢
      obtain ⟨s', hs, rfl⟩ := except_map_eq_ok.1 h
      rw [except_map_map]
      exact ih (s := s') hs
    · rw [simulateFrom_cons_of_not_mem hx] at h
      cases h

/-- A text that has been read can be read on by one token exactly if the kind of the token is expected; a text that has
not been read cannot be read on.  This holds whatever the limits. -/
theorem simulate_agrees_expectation (g : Grammar) (limits : Limits) (w : List Token) :
    (∀ s, g.simulate limits w = .ok s → ∀ x : Token,
      ((∃ s', g.simulate limits (w ++ [x]) = .ok s') ↔ x.kind ∈ (g.expectation limits s.configurations).kinds) ∧
      (x.kind ∉ (g.expectation limits s.configurations).kinds →
        g.simulate limits (w ++ [x]) = .error ⟨w.length, x.text, g.displayName x.kind⟩)) ∧
    ∀ e, g.simulate limits w = .error e → ∀ u, g.simulate limits (w ++ u) = .error e := by
  refine ⟨?_, fun e h u => simulateFrom_append_of_error h u⟩
  intro s h x
  -- the longer run goes on by one token from where the shorter one ended
  have hone := simulateFrom_append_of_ok h [x]
  rw [Nat.zero_add] at hone
  have herror : x.kind ∉ (g.expectation limits s.configurations).kinds →
      g.simulate limits (w ++ [x]) = .error ⟨w.length, x.text, g.displayName x.kind⟩ := by
    intro hx
    rw [simulateFrom_cons_of_not_mem hx] at hone
    exact except_map_eq_error.1 hone
  refine ⟨⟨?_, ?_⟩, herror⟩
  · rintro ⟨s', hs⟩
    by_contra hx
    rw [herror hx] at hs
    cases hs
  · intro hx
    rw [simulateFrom_cons_of_mem hx, simulateFrom] at hone
    obtain ⟨s', hs, -⟩ := except_map_eq_ok.1 hone
    exact ⟨s', hs⟩

/-- One token, `A` at once or `B` behind a further state. -/
def twoWays : Grammar where
  lexical := .empty
  phrase :=
    { states := #[⟨0, 0, .ruleStart, [.epsilon 2, .consume (.symbol 0) 1]⟩, ⟨1, 0, .ruleStop, [.leave]⟩,
        ⟨2, 0, .basic, [.consume (.oneOf [1]) 1]⟩]
      rules := #[⟨"start", 0, 1⟩] }
  tokens := #[⟨0, "A", 0, false, []⟩, ⟨1, "B", 1, false, []⟩]
  startRule := 0

/-- If only one configuration is explored, `B` is neither expected nor read. -/
theorem simulate_twoWays :
    (∃ s, twoWays.simulate ⟨16, 1⟩ [⟨0, "a", 0, 1⟩] = .ok s) ∧
      ∀ u, twoWays.simulate ⟨16, 1⟩ (⟨1, "b", 0, 1⟩ :: u) = .error ⟨0, "b", "B"⟩ := by
  have hs : twoWays.simulate ⟨16, 1⟩ [] = .ok ⟨[.initial 0], {}⟩ := by cbv
  have hk : (twoWays.expectation ⟨16, 1⟩ [.initial 0]).kinds = [0] := by cbv
  obtain ⟨hok, -⟩ := simulate_agrees_expectation twoWays ⟨16, 1⟩ []
  obtain ⟨-, herror⟩ := simulate_agrees_expectation twoWays ⟨16, 1⟩ [⟨1, "b", 0, 1⟩]
  refine ⟨(hok _ hs ⟨0, "a", 0, 1⟩).1.2 ?_, fun u => herror _ ((hok _ hs ⟨1, "b", 0, 1⟩).2 ?_) u⟩
  · rw [hk]
    exact List.mem_singleton.2 rfl
  · rw [hk]
    exact fun h => absurd (List.mem_singleton.1 h) Nat.one_ne_zero

end Grammar

end Typeahead
