import Typeahead.Proofs.Completion.GrowingInput
import Typeahead.Proofs.Completion.Suggestion
import Typeahead.Proofs.Completion.Viability

/-!
# When the end of the input is accepted

Whether an input may end is told by its confirmed tokens: the start rule derives their kinds, and unless a closure has
been cut short or has pruned a call, this is reported whenever it is so (`acceptsEnd_exact`).  An input that is read to
its end is then a complete statement.  An unfinished rest is not looked at, and it may spoil the statement
(`acceptsEnd_letters`).
-/

namespace Typeahead

/-- What has been read is a complete statement: the start rule derives the kinds of the confirmed tokens, followed by a
kind that the unfinished rest spells, if there is a rest. -/
def Declarations.IsStatement (d : Declarations) (read : Tokenization) : Prop :=
  match read.unfinished with
  | none => d.Derives (read.tokens.map (·.kind))
  | some rest => ∃ kind, d.Spells kind rest.text.toList ∧ d.Derives (read.tokens.map (·.kind) ++ [kind])

/-- What can be completed with nothing more can be completed. -/
theorem Declarations.Derives.viable {d : Declarations} {w : List TokenKind} (h : d.Derives w) : d.Viable w :=
  h.imp fun _ h => ⟨h.1, h.2.viable⟩

namespace Grammar

variable {d : Declarations} {g : Grammar} {options : Options} {input : String} {report : Report}

/-- The counters of a report tell about the closures of the simulation and about the last closure. -/
private theorem exhaustive_of_complete {read : Tokenization} {parsed : Simulation} {limits : Limits}
    (hp : g.simulate limits read.tokens = .ok parsed)
    (hz : (read.stats + parsed.stats + (g.expectation limits parsed.configurations).stats).Complete) :
    (∀ reached ∈ g.closures limits read.tokens, reached.Exhaustive) ∧
      (g.phrase.closure limits parsed.configurations).Exhaustive := by
  rw [Stats.complete_add_iff, Stats.complete_add_iff] at hz
  obtain ⟨⟨-, hparsed⟩, hlast⟩ := hz
  exact ⟨(exhaustive_closures_iff hp).2 hparsed, Network.exhaustive_closure_iff.2 hlast⟩

/-- The end is accepted only if the start rule derives the kinds of the confirmed tokens, and whenever it does, unless a
closure was cut short or pruned a call.  So an input that is read to its end and may end there is a complete
statement. -/
theorem acceptsEnd_exact (hb : d.build = .ok g) (h : g.suggest options input = .ok report) :
    ∃ read, g.tokenize options.limits input = .ok read ∧ read.tokens.length = report.confirmed ∧
      read.unfinished = report.unfinished ∧
      (report.acceptsEnd = true → d.Derives (read.tokens.map (·.kind))) ∧
      (report.stats.Complete → d.Derives (read.tokens.map (·.kind)) → report.acceptsEnd = true) ∧
      (report.acceptsEnd = true → report.unfinished = none → d.IsStatement read) := by
  obtain ⟨read, parsed, hread, hparsed, rfl⟩ := suggest_eq_ok_iff.1 h
  obtain ⟨-, hexpected⟩ := viable_of_simulate hb hparsed
  obtain ⟨-, hend⟩ := hexpected options.limits
  refine ⟨read, hread, rfl, rfl, hend, fun hz hd => ?_, fun haccepts hrest => ?_⟩
  · obtain ⟨hclosures, hlast⟩ := exhaustive_of_complete hparsed hz
    exact (acceptsEnd_iff_derives hb hparsed hclosures hlast).2 hd
  · have hnone : read.unfinished = none := hrest
    rw [Declarations.IsStatement, hnone]
    exact hend haccepts

/-- A letter and a space are a complete statement. -/
theorem acceptsEnd_letter : ∃ read, letterGrammar.tokenize {} "a " = .ok read ∧ letter.IsStatement read := by
  have hb : letter.build = .ok letterGrammar := by cbv
  have hreport : letterGrammar.suggest {} "a " = .ok ⟨[], none, 1, true, ⟨15, 0, 0⟩⟩ := by cbv
  obtain ⟨read, hread, -, -, -, -, hstatement⟩ := acceptsEnd_exact hb hreport
  exact ⟨read, hread, hstatement rfl rfl⟩

/-- A second letter spoils the statement, and yet the end is accepted. -/
theorem acceptsEnd_letters :
    letter.build = .ok letterGrammar ∧
      ∃ read report, letterGrammar.tokenize {} "a a" = .ok read ∧ letterGrammar.suggest {} "a a" = .ok report ∧
        report.acceptsEnd = true ∧ ¬ letter.IsStatement read := by
  have hb : letter.build = .ok letterGrammar := by cbv
  have hread : letterGrammar.tokenize {} "a a" = .ok ⟨[⟨0, "a", 0, 1⟩], some ⟨"a", 2⟩, ⟨17, 0, 0⟩⟩ := by cbv
  have hreport : letterGrammar.suggest {} "a a" = .ok ⟨[], some ⟨"a", 2⟩, 1, true, ⟨20, 0, 0⟩⟩ := by cbv
  have hparsed : letterGrammar.simulate {} [⟨0, "a", 0, 1⟩] = .ok ⟨[⟨2, []⟩], ⟨1, 0, 0⟩⟩ := by cbv
  have hlast : (letterGrammar.phrase.closure {} [⟨2, []⟩]).Exhaustive := ⟨by cbv, by cbv⟩
  have hkinds : (letterGrammar.expectation {} [⟨2, []⟩]).kinds = [] := by cbv
  refine ⟨hb, _, _, hread, hreport, rfl, ?_⟩
  rintro ⟨kind, -, hd⟩
  -- nothing may follow the first letter
  have hnext := (mem_kinds_iff_viable hb hparsed ((exhaustive_closures_iff hparsed).2 ⟨rfl, rfl⟩) hlast).2 hd.viable
  rw [hkinds] at hnext
  cases hnext

end Grammar

end Typeahead
