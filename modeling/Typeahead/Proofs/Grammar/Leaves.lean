import Typeahead.Proofs.Grammar.LeftRecursion
import Typeahead.Proofs.Grammar.Resolution

/-!
# Leaves of a pattern

The leaves of a pattern are its atoms and its references, from left to right.  Resolving a pattern looks at all of them
and reports the fault of the first that has one (`fault?_resolve`).  Turning left recursion into a loop moves leaves and
drops references of the rule to itself, but neither adds a leaf nor loses one of another kind
(`mem_leaves_of_withoutLeftRecursion?`, `mem_leaves_withoutLeftRecursion?`).
-/

namespace Typeahead.Pattern

variable {α β ρ κ ε : Type}

mutual

/-- The atoms and the references of a pattern, from left to right. -/
def leaves : Pattern α ρ → List (α ⊕ ρ)
  | .empty => []
  | .atom a => [.inl a]
  | .ref r => [.inr r]
  | .seq ps => leavesOf ps
  | .alt ps => leavesOf ps
  | .optional p => leaves p
  | .many p => leaves p
  | .many1 p => leaves p

/-- The leaves of the items of a list, from left to right. -/
def leavesOf : List (Pattern α ρ) → List (α ⊕ ρ)
  | [] => []
  | p :: ps => leaves p ++ leavesOf ps

end

theorem leavesOf_eq_flatMap (ps : List (Pattern α ρ)) : leavesOf ps = ps.flatMap leaves := by
  induction ps with
  | nil => rfl
  | cons p ps ih => rw [leavesOf, ih, List.flatMap_cons]

theorem mem_leavesOf {ps : List (Pattern α ρ)} {x : α ⊕ ρ} : x ∈ leavesOf ps ↔ ∃ p ∈ ps, x ∈ p.leaves := by
  rw [leavesOf_eq_flatMap, List.mem_flatMap]

/-! ### Resolving -/

section Resolve

variable {atom : α → Except ε β} {ref : ρ → Except ε κ}

mutual

/-- What resolving reports is the fault of the leftmost leaf that cannot be resolved. -/
theorem fault?_resolve (p : Pattern α ρ) : fault? (p.resolve atom ref) =
    p.leaves.findSome? (Sum.elim (fun a => fault? (atom a)) fun r => fault? (ref r)) := by
  match p with
  | .empty => rfl
  | .atom a =>
    rw [resolve, fault?_map, leaves, List.findSome?_singleton]
    rfl
  | .ref r =>
    rw [resolve, fault?_map, leaves, List.findSome?_singleton]
    rfl
  | .seq ps | .alt ps => rw [resolve, fault?_map, leaves, fault?_resolveAll ps]
  | .optional p | .many p | .many1 p => rw [resolve, fault?_map, leaves, fault?_resolve p]

theorem fault?_resolveAll (ps : List (Pattern α ρ)) : fault? (resolveAll atom ref ps) =
    (leavesOf ps).findSome? (Sum.elim (fun a => fault? (atom a)) fun r => fault? (ref r)) := by
  match ps with
  | [] => rfl
  | p :: ps => rw [resolveAll, fault?_both, fault?_resolve p, fault?_resolveAll ps, leavesOf, List.findSome?_append]

end

end Resolve

/-! ### Left recursion -/

@[simp] theorem leaves_ofAlternatives (ps : List (Pattern α ρ)) : (ofAlternatives ps).leaves = leavesOf ps := by
  unfold ofAlternatives
  split
  · rw [leavesOf, leavesOf, List.append_nil]
  · rw [leaves]

@[simp] theorem leaves_ofSequence (ps : List (Pattern α ρ)) : (ofSequence ps).leaves = leavesOf ps := by
  unfold ofSequence
  split
  · rfl
  · rw [leavesOf, leavesOf, List.append_nil]
  · rw [leaves]

@[simp] theorem leavesOf_alternatives (p : Pattern α ρ) : leavesOf p.alternatives = p.leaves := by
  unfold alternatives
  split
  · rw [leaves]
  · rw [leavesOf, leavesOf, List.append_nil]

variable {name : String} {body q : Pattern α String}

/-- A left-recursive alternative has the leaves of what follows, and the reference before them. -/
theorem leaves_of_afterSelf? {p t : Pattern α String} (h : afterSelf? name p = some t) :
    p.leaves = .inr name :: t.leaves := by
  rcases RuleSystem.afterSelf?_eq_some h with ⟨rfl, rfl⟩ | ⟨rest, rfl, rfl⟩
  · rfl
  · rw [leaves_ofSequence, leaves, leavesOf, leaves, List.singleton_append]

private theorem isLoop_leaves {bases tails : List (Pattern α String)}
    (h : RuleSystem.IsLoop name body q bases tails) {x : α ⊕ String} :
    x ∈ q.leaves ↔ x ∈ leavesOf bases ∨ x ∈ leavesOf tails := by
  rcases h.shape with ⟨rfl, rfl⟩ | rfl
  · simp [leavesOf]
  · simp [leaves, leavesOf]

/-- The loop that stands for a left-recursive rule mentions nothing new. -/
theorem mem_leaves_of_withoutLeftRecursion? (h : body.withoutLeftRecursion? name = some q) {x : α ⊕ String}
    (hx : x ∈ q.leaves) : x ∈ body.leaves := by
  obtain ⟨bases, tails, hl⟩ := RuleSystem.exists_isLoop h
  rw [← leavesOf_alternatives, mem_leavesOf]
  rcases (isLoop_leaves hl).1 hx with hx | hx
  · obtain ⟨p, hp, hx⟩ := mem_leavesOf.1 hx
    exact ⟨p, ((hl.mem_bases p).1 hp).1, hx⟩
  · obtain ⟨t, ht, hx⟩ := mem_leavesOf.1 hx
    obtain ⟨-, p, hp, htail⟩ := (hl.mem_tails t).1 ht
    exact ⟨p, hp, by rw [leaves_of_afterSelf? htail]; exact List.mem_cons_of_mem _ hx⟩

/-- The loop that stands for a left-recursive rule mentions all that the rule does, itself apart. -/
theorem mem_leaves_withoutLeftRecursion? (h : body.withoutLeftRecursion? name = some q) {x : α ⊕ String}
    (hx : x ∈ body.leaves) : x = .inr name ∨ x ∈ q.leaves := by
  obtain ⟨bases, tails, hl⟩ := RuleSystem.exists_isLoop h
  rw [isLoop_leaves hl, mem_leavesOf, mem_leavesOf]
  rw [← leavesOf_alternatives, mem_leavesOf] at hx
  obtain ⟨p, hp, hx⟩ := hx
  cases htail : afterSelf? name p with
  | none => exact Or.inr (Or.inl ⟨p, (hl.mem_bases p).2 ⟨hp, htail⟩, hx⟩)
  | some t =>
    rw [leaves_of_afterSelf? htail] at hx
    rcases List.mem_cons.1 hx with hx | hx
    · exact Or.inl hx
    · -- a tail without leaves is dropped, so this one is kept
      cases he : t.isEmpty with
      | false => exact Or.inr (Or.inr ⟨t, (hl.mem_tails t).2 ⟨he, p, hp, htail⟩, hx⟩)
      | true =>
        unfold isEmpty at he
        split at he
        · cases hx
        · cases he

end Typeahead.Pattern
