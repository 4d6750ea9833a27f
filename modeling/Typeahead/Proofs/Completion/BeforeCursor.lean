import Mathlib.Order.Bounds.Basic
import Typeahead.Proofs.Completion.Cursor
import Typeahead.Proofs.Completion.Suggestion

/-!
# Only the text before the cursor counts

A cursor is moved back to the greatest boundary that it has passed (`isGreatest_takeBytes`), and what stands behind that
boundary has no influence on the completions.  What they replace ends there, and as long as spellings are suggested as
declared, each of them extends what has been typed (`complete_before_cursor`).
-/

namespace Typeahead

/-- A beginning of the text that takes no more bytes than allowed is a beginning of the longest one. -/
theorem prefix_takeBytes {bytes : Nat} {pre post : List Char} (h : byteLength pre ≤ bytes) :
    pre <+: takeBytes bytes (pre ++ post) := by
  induction pre generalizing bytes with
  | nil => exact List.nil_prefix
  | cons c pre ih =>
    have hc : c.utf8Size ≤ bytes := Nat.le_trans (Nat.le_add_right _ _) h
    have hrest : byteLength pre ≤ bytes - c.utf8Size := by
      simp only [byteLength] at h
      omega
    rw [List.cons_append, takeBytes, if_pos hc]
    exact List.cons_prefix_cons.2 ⟨rfl, ih hrest⟩

theorem isGreatest_takeBytes (position : Nat) (cs : List Char) :
    IsGreatest {n | IsBoundary cs n ∧ n ≤ min position (byteLength cs)} (byteLength (takeBytes position cs)) := by
  constructor
  · refine ⟨⟨_, _, (takeBytes_append_dropBytes position cs).symm, rfl⟩, ?_⟩
    rw [← takeBytes_min]
    exact byteLength_takeBytes_le _ _
  · rintro n ⟨⟨pre, post, rfl, rfl⟩, hn⟩
    have hle : byteLength pre ≤ position := Nat.le_trans hn (Nat.min_le_left _ _)
    obtain ⟨between, hbetween⟩ : pre <+: takeBytes position (pre ++ post) := prefix_takeBytes hle
    rw [← hbetween, byteLength_append]
    exact Nat.le_add_right _ _

namespace Grammar

variable {g : Grammar} {options : Options} {line : String} {position : Nat}

/-- What stands behind the cursor has no influence. -/
private theorem complete_takeBytes (g : Grammar) (options : Options) (line : String) (position : Nat) :
    g.complete options (String.ofList (takeBytes position line.toList)) (byteLength (takeBytes position line.toList)) =
      g.complete options line position := by
  have htake : takeBytes (byteLength (takeBytes position line.toList)) (takeBytes position line.toList) =
      takeBytes position line.toList := by
    have h := takeBytes_append (takeBytes position line.toList) []
    rwa [List.append_nil] at h
  unfold complete
  rw [String.toList_ofList, htake]

/-- A suggestion that is not recased begins with the text to complete. -/
private theorem begins_with_fragment (hc : options.case = .asIs) {s : Suggestion}
    (hs : s ∈ (g.complete options line position).suggestions) :
    (g.fragment options line position).toList <+: s.text.toList := by
  unfold complete at hs
  unfold fragment
  cases hr : g.suggest options (String.ofList (takeBytes position line.toList)) with
  | error e => simp [hr] at hs
  | ok report =>
    simp only [hr] at hs ⊢
    obtain ⟨read, parsed, -, -, rfl⟩ := suggest_eq_ok_iff.1 hr
    obtain ⟨-, -, -, hcompletes⟩ := mem_textsOf_iff.1 (mem_textsOf_of_mem_resolve hs).2
    cases hu : read.unfinished with
    | none => exact List.nil_prefix
    | some u =>
      have hcompletes := hcompletes u.text (by rw [hu]; rfl)
      rw [hc] at hcompletes
      exact List.isPrefixOf_iff_prefix.1 hcompletes

/-- The completions at a cursor are those at the end of the text before it, up to the greatest boundary that the cursor
has passed.  They replace the unfinished text in front of this boundary, or nothing if there is none, and there are none
if the text is rejected.  If spellings are suggested as declared, each suggestion keeps what has been typed. -/
theorem complete_before_cursor (g : Grammar) (options : Options) (line : String) (position : Nat) :
    ∃ before after, line.toList = before ++ after ∧
      IsGreatest {n | IsBoundary line.toList n ∧ n ≤ min position line.utf8ByteSize} (byteLength before) ∧
      g.complete options line position = g.complete options (String.ofList before) (byteLength before) ∧
      IsBoundary line.toList (g.complete options line position).start ∧
      (g.complete options line position).start ≤ byteLength before ∧
      (∀ e, g.suggest options (String.ofList before) = .error e →
        g.complete options line position = ⟨byteLength before, []⟩) ∧
      (∀ report, g.suggest options (String.ofList before) = .ok report →
        (g.complete options line position).suggestions = report.suggestions ∧
        Slices line.toList (g.complete options line position).start (byteLength before)
          ((report.unfinished.map (·.text)).getD "").toList) ∧
      (options.case = .asIs → ∀ s ∈ (g.complete options line position).suggestions,
        before <+: takeBytes (g.complete options line position).start line.toList ++ s.text.toList) := by
  obtain ⟨kept, hbefore, hstart⟩ := g.exists_before_cursor options line position
  have hline := takeBytes_append_dropBytes position line.toList
  have hgreatest := isGreatest_takeBytes position line.toList
  rw [byteLength_toList] at hgreatest
  have hkept : line.toList = kept ++ ((g.fragment options line position).toList ++ dropBytes position line.toList) := by
    rw [← List.append_assoc, ← hbefore, hline]
  have hle : byteLength kept ≤ byteLength (takeBytes position line.toList) := by
    rw [hbefore, byteLength_append]
    exact Nat.le_add_right _ _
  refine ⟨takeBytes position line.toList, dropBytes position line.toList, hline.symm, hgreatest,
    (complete_takeBytes g options line position).symm, ⟨kept, _, hkept, hstart⟩, hstart ▸ hle, fun e he => ?_,
    fun report hr => ?_, fun hc s hs => ?_⟩
  · simp [complete, he]
  · have hfragment : g.fragment options line position = (report.unfinished.map (·.text)).getD "" := by
      unfold fragment
      rw [hr]
    rw [← hfragment]
    refine ⟨by simp [complete, hr], kept, dropBytes position line.toList, ?_, hstart, ?_⟩
    · exact hkept.trans (List.append_assoc ..).symm
    · rw [← byteLength_append, ← hbefore]
  · have htake : takeBytes (g.complete options line position).start line.toList = kept := by
      rw [hkept, ← hstart, takeBytes_append]
    rw [htake, hbefore]
    exact (List.prefix_append_right_inj kept).2 (begins_with_fragment hc hs)

end Grammar

end Typeahead
