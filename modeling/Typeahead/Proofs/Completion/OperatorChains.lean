import Mathlib
import Typeahead.Proofs.Completion.Viability

/-!
# Direct left recursion and the re-entry limit

Direct left recursion is turned into a loop, but only where a rule refers to itself at the head of an alternative of its
body.  If that is all the left recursion there is, no call is ever pruned and operator chains of any length are read,
however low the re-entry limit is (`simulate_of_recursesAtHeads`).  A self reference that stands first at a greater
depth stays left recursive, and long chains are cut off (`simulate_nestedSums`).
-/

namespace Typeahead

open RuleSystem

namespace Declarations

/-- Each rule derives something, and the only left recursion is direct: no rule begins with itself by way of another
rule or behind items that derive the empty word. -/
structure OnlyDirectlyRecursive (d : Declarations) : Prop where
  productive : ∀ name body, (name, body) ∈ d.rules → ∃ w, d.phraseSystem.Derives [.ref name] w
  direct : ∀ name body, (name, body) ∈ d.rules → ¬ d.phraseSystem.BeginsElsewhere name body

/-- Where a rule refers to itself as its very first item, the reference is an alternative of the body or stands at the
head of one. -/
def RecursesAtHeads (d : Declarations) : Prop :=
  ∀ name body, (name, body) ∈ d.rules → ∀ p ∈ body.alternatives, p.First name →
    p = .ref name ∨ ∃ rest, p = .seq (.ref name :: rest)

variable {d : Declarations} {g : Grammar}

/-- With the recursion at the heads of alternatives turned into loops, no rule begins with itself. -/
theorem RecursesAtHeads.not_begins_self (hh : d.RecursesAtHeads) (hd : d.OnlyDirectlyRecursive) {name : String}
    {body : PhrasePattern} (hbody : d.loopSystem.body? name = some body) : ¬ d.loopSystem.Begins [body] name := by
  obtain ⟨p, hp, rfl⟩ := Option.map_eq_some_iff.1 hbody
  have hmem : (name, p) ∈ d.rules := by
    obtain ⟨l₁, l₂, hl, -⟩ := List.lookup_eq_some_iff.1 hp
    rw [hl]
    simp
  refine d.turnsIntoLoops.not_begins_self hp (hd.productive name p hmem) (hd.direct name p hmem) fun q hq hfirst => ?_
  rcases hh name p hmem q hq hfirst with rfl | ⟨rest, rfl⟩
  · simp [Pattern.afterSelf?]
  · simp [Pattern.afterSelf?]

theorem RecursesAtHeads.noLeftCycle (hh : d.RecursesAtHeads) (hd : d.OnlyDirectlyRecursive) (h : Built d g) :
    g.phrase.NoLeftCycle :=
  h.noLeftCycle_phrase fun _ _ hbody => hh.not_begins_self hd hbody

end Declarations

namespace Grammar

variable {d : Declarations} {g : Grammar} {limits : Limits} {configs : List Configuration} {tokens : List Token}

/-! ### Runs without left cycles -/

private theorem prunedCalls_closuresFrom (hn : g.phrase.NoLeftCycle) (hr : 1 ≤ limits.reentry) {reached : Closure}
    (h : reached ∈ g.closuresFrom limits configs tokens) : reached.stats.prunedCalls = 0 := by
  induction tokens generalizing configs with
  | nil => cases h
  | cons x w ih =>
    have hfirst := Network.prunedCalls_closure_eq_zero hn hr configs
    rw [closuresFrom] at h
    split at h
    · rw [List.mem_singleton.1 h]
      exact hfirst
    · rcases List.mem_cons.1 h with rfl | h
      · exact hfirst
      · exact ih h

private theorem prunedCalls_simulateFrom (hn : g.phrase.NoLeftCycle) (hr : 1 ≤ limits.reentry) {index : Nat}
    {s : Simulation} (h : g.simulateFrom limits index configs tokens = .ok s) : s.stats.prunedCalls = 0 := by
  induction tokens generalizing index configs s with
  | nil =>
    cases h
    rfl
  | cons x w ih =>
    rw [simulateFrom] at h
    split at h
    · cases h
    · obtain ⟨s', hs, rfl⟩ := except_map_eq_ok.1 h
      exact Nat.add_eq_zero_iff.2 ⟨Network.prunedCalls_closure_eq_zero hn hr configs, ih hs⟩

/-- If a rule begins with itself only at the heads of the alternatives of its body, no call is pruned, however low the
re-entry limit is.  So unless the limit on configurations cuts a closure short, just the viable texts are read. -/
theorem simulate_of_recursesAtHeads (hb : d.build = .ok g) (hd : d.OnlyDirectlyRecursive) (hh : d.RecursesAtHeads)
    (hr : 1 ≤ limits.reentry) (tokens : List Token) :
    (∀ reached ∈ g.closures limits tokens, reached.stats.prunedCalls = 0) ∧
    (∀ s, g.simulate limits tokens = .ok s →
      s.stats.prunedCalls = 0 ∧ (g.expectation limits s.configurations).stats.prunedCalls = 0) ∧
    ((∀ reached ∈ g.closures limits tokens, reached.bound = none) →
      ((∃ s, g.simulate limits tokens = .ok s) ↔ d.Viable (tokens.map (·.kind)))) := by
  have hn := hh.noLeftCycle hd (Declarations.built_of_build hb)
  refine ⟨fun reached => prunedCalls_closuresFrom hn hr, fun s hs => ⟨prunedCalls_simulateFrom hn hr hs, ?_⟩, ?_⟩
  · exact Network.prunedCalls_closure_eq_zero hn hr s.configurations
  · intro hbound
    constructor
    · rintro ⟨s, hs⟩
      exact (viable_of_simulate hb hs).1
    · intro hv
      cases hs : g.simulate limits tokens with
      | ok s => exact ⟨s, rfl⟩
      | error e =>
        -- an exhaustive run fails only where the text is not viable
        have hexhaustive : ∀ reached ∈ g.closures limits tokens, reached.Exhaustive := fun reached h =>
          ⟨prunedCalls_closuresFrom hn hr h, hbound reached h⟩
        obtain ⟨-, hnot, -⟩ := (error_index_iff hb hexhaustive).1 ⟨e, hs, rfl⟩
        exact absurd (hv.take _) hnot

/-- In sums the recursion stands at the head of an alternative, so the lowest limit does not cut a sum off. -/
theorem simulate_sums_reentry_one :
    (sums.OnlyDirectlyRecursive ∧ sums.RecursesAtHeads) ∧
      ∀ tokens s, sumsGrammar.simulate ⟨1, 100000⟩ tokens = .ok s → s.stats.prunedCalls = 0 := by
  have hb : sums.build = .ok sumsGrammar := by cbv
  have hd : sums.OnlyDirectlyRecursive := by
    refine ⟨fun name body hmem => ?_, fun name body hmem he => ?_⟩
    · cases List.mem_singleton.1 hmem
      refine ⟨[0], derives_ref_iff.2 ⟨_, rfl, derives_alt_iff.2 ⟨.atom "NUM", by simp, ?_⟩⟩⟩
      exact .emit rfl (.refl [])
    · cases List.mem_singleton.1 hmem
      cases he with
      | alt hp he =>
        rcases List.mem_pair.1 hp with rfl | rfl
        · cases he with
          | behind _ h =>
            rcases begins_cons_iff.1 h with h | ⟨-, h⟩
            · exact not_begins_atom h
            · exact not_begins_atom h
          | seq he =>
            cases he with
            | through hk _ => exact hk rfl
        · cases he
  have hh : sums.RecursesAtHeads := by
    intro name body hmem p hp hfirst
    cases List.mem_singleton.1 hmem
    rcases List.mem_pair.1 hp with rfl | rfl
    · exact Or.inr ⟨_, rfl⟩
    · cases hfirst
  refine ⟨⟨hd, hh⟩, fun tokens s hs => ?_⟩
  exact ((simulate_of_recursesAtHeads hb hd hh (by decide) tokens).2.1 s hs).1

/-- Sums of numbers, declared with the left recursion inside an optional part. -/
def nestedSums : Declarations :=
  { tokens := [⟨"NUM", .many1 (.inClass "0-9"), false⟩, ⟨"PLUS", .literal "+", false⟩]
    rules := [("sum", .seq [.optional (.seq [.ref "sum", .atom "PLUS"]), .atom "NUM"])]
    start := some "sum" }

/-- The grammar built for nested sums. -/
def nestedSumsGrammar : Grammar := nestedSums.build.toOption.getD ⟨.empty, .empty, #[], 0⟩

/-- The only left recursion of nested sums is direct, but it is not turned into a loop: calls are pruned, and if a rule
may be opened only once, a viable sum of two numbers and a further plus is not read. -/
theorem simulate_nestedSums :
    nestedSums.build = .ok nestedSumsGrammar ∧ nestedSums.OnlyDirectlyRecursive ∧
      (∃ s, nestedSumsGrammar.simulate ⟨1, 100000⟩ [⟨0, "1", 0, 1⟩] = .ok s ∧ s.stats.prunedCalls = 1) ∧
      nestedSums.Viable [0, 1, 0, 1] ∧
      ∃ e, nestedSumsGrammar.simulate ⟨1, 100000⟩
        [⟨0, "1", 0, 1⟩, ⟨1, "+", 1, 2⟩, ⟨0, "1", 2, 3⟩, ⟨1, "+", 3, 4⟩] = .error e := by
  have hb : nestedSums.build = .ok nestedSumsGrammar := by cbv
  have hd : nestedSums.OnlyDirectlyRecursive := by
    refine ⟨fun name body hmem => ?_, fun name body hmem he => ?_⟩
    · cases List.mem_singleton.1 hmem
      refine ⟨[0], derives_ref_iff.2 ⟨_, rfl, derives_seq_iff.2 ?_⟩⟩
      exact .expand .skip (.emit rfl (.refl []))
    · cases List.mem_singleton.1 hmem
      cases he with
      | behind _ h => exact not_begins_atom h
      | seq he =>
        cases he with
        | optional he =>
          cases he with
          | behind _ h => exact not_begins_atom h
          | seq he =>
            cases he with
            | through hk _ => exact hk rfl
  have hone : nestedSumsGrammar.simulate ⟨1, 100000⟩ [⟨0, "1", 0, 1⟩] = .ok ⟨[⟨7, []⟩, ⟨7, [⟨0, 5⟩]⟩], ⟨8, 1, 0⟩⟩ := by
    cbv
  have htwo : nestedSumsGrammar.simulate ⟨1, 100000⟩
      [⟨0, "1", 0, 1⟩, ⟨1, "+", 1, 2⟩, ⟨0, "1", 2, 3⟩, ⟨1, "+", 3, 4⟩] = .error ⟨3, "+", "PLUS"⟩ := by
    cbv
  -- with one more call the same text is read
  have hmore : (nestedSumsGrammar.simulate ⟨2, 100000⟩
      [⟨0, "1", 0, 1⟩, ⟨1, "+", 1, 2⟩, ⟨0, "1", 2, 3⟩, ⟨1, "+", 3, 4⟩]).toOption.isSome = true := by
    cbv
  refine ⟨hb, hd, ⟨_, hone, rfl⟩, ?_, _, htwo⟩
  cases hs : nestedSumsGrammar.simulate ⟨2, 100000⟩
      [⟨0, "1", 0, 1⟩, ⟨1, "+", 1, 2⟩, ⟨0, "1", 2, 3⟩, ⟨1, "+", 3, 4⟩] with
  | error e =>
    rw [hs] at hmore
    cases hmore
  | ok s => exact (viable_of_simulate hb hs).1

end Grammar

end Typeahead
