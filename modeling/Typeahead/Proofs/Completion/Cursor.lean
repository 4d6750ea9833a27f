import Typeahead.Completion.Cursor
import Typeahead.Proofs.Completion.GrowingInput

/-!
# Completion at a cursor

A cursor is a byte position, and the text before it is cut back to whole characters.  What is to be replaced begins at a
boundary between characters, where the unfinished text begins (`exists_before_cursor`).  An edit, however, ends at the
cursor as it was given: it replaces just the unfinished text unless the cursor lies inside a character
(`edit_replaces_fragment_iff`).
-/

namespace Typeahead

/-- A byte position between two characters of the text or at one of its ends. -/
def IsBoundary (cs : List Char) (n : Nat) : Prop := ∃ pre post, cs = pre ++ post ∧ byteLength pre = n

/-- The bytes of the text from `start` to `stop` are those of the given characters. -/
def Slices (cs : List Char) (start stop : Nat) (part : List Char) : Prop :=
  ∃ pre post, cs = pre ++ part ++ post ∧ byteLength pre = start ∧ byteLength pre + byteLength part = stop

@[simp] theorem byteLength_append (cs ds : List Char) : byteLength (cs ++ ds) = byteLength cs + byteLength ds := by
  induction cs with
  | nil => simp [byteLength]
  | cons c cs ih => simp [byteLength, ih, Nat.add_assoc]

theorem byteLength_toList (s : String) : byteLength s.toList = s.utf8ByteSize := by
  have h : ∀ cs : List Char, byteLength cs = (String.ofList cs).utf8ByteSize := by
    intro cs
    induction cs with
    | nil => rfl
    | cons c cs ih =>
      rw [String.ofList_cons, String.utf8ByteSize_append, String.utf8ByteSize_singleton, ← ih]
      rfl
  rw [h, String.ofList_toList]

/-- What is taken up to a boundary takes all the bytes up to there. -/
theorem takeBytes_append (pre post : List Char) : takeBytes (byteLength pre) (pre ++ post) = pre := by
  induction pre with
  | nil =>
    cases post with
    | nil => rfl
    | cons c post =>
      have hc := c.utf8Size_pos
      simp [takeBytes, byteLength]
      omega
  | cons c pre ih => simp [takeBytes, byteLength, ih]

theorem isBoundary_iff {cs : List Char} {n : Nat} : IsBoundary cs n ↔ byteLength (takeBytes n cs) = n := by
  constructor
  · rintro ⟨pre, post, rfl, rfl⟩
    rw [takeBytes_append]
  · intro h
    exact ⟨takeBytes n cs, dropBytes n cs, (takeBytes_append_dropBytes n cs).symm, h⟩

instance (cs : List Char) (n : Nat) : Decidable (IsBoundary cs n) := decidable_of_iff _ isBoundary_iff.symm

/-- Bytes beyond the end of the text do not matter. -/
theorem takeBytes_min (n : Nat) (cs : List Char) : takeBytes (min n (byteLength cs)) cs = takeBytes n cs := by
  induction cs generalizing n with
  | nil => rfl
  | cons c cs ih =>
    have hmin : min n (byteLength (c :: cs)) - c.utf8Size = min (n - c.utf8Size) (byteLength cs) := by
      simp only [byteLength]
      omega
    have hfits : c.utf8Size ≤ min n (byteLength (c :: cs)) ↔ c.utf8Size ≤ n := by
      simp only [byteLength]
      omega
    simp only [takeBytes, hfits, hmin, ih]

namespace Grammar

variable {g : Grammar} {limits : Limits}

/-- The unfinished text of a text is its end, and starts behind the bytes before it. -/
theorem Tokenizes.unfinished_spans {position : Nat} {cs : List Char} {r : Except LexicalError Tokenization}
    (h : g.Tokenizes limits position cs r) {t : Tokenization} (hr : r = .ok t) {u : Unfinished}
    (hu : t.unfinished = some u) : ∃ pre, cs = pre ++ u.text.toList ∧ u.start = position + byteLength pre := by
  induction h generalizing t with
  | finished =>
    cases hr
    cases hu
  | ended =>
    cases hr
    cases hu
  | unfinished =>
    cases hr
    cases hu
    exact ⟨[], by rw [String.toList_ofList, List.nil_append], rfl⟩
  | stuck => cases hr
  | @confirmed position cs munch _ hm _ ih =>
    obtain ⟨t, ht, rfl⟩ := except_map_eq_ok.1 hr
    obtain ⟨pre, hcs, hstart⟩ := ih ht hu
    refine ⟨cs.take (munch.extra + 1) ++ pre, ?_, ?_⟩
    · rw [List.append_assoc, ← hcs, List.take_append_drop]
    · rw [hstart, byteLength_append, Nat.add_assoc]

/-- The text before the cursor that the suggestions are to complete. -/
def fragment (g : Grammar) (options : Options) (line : String) (position : Nat) : String :=
  match g.suggest options (String.ofList (takeBytes position line.toList)) with
  | .error _ => ""
  | .ok report => (report.unfinished.map (·.text)).getD ""

/-- The text before the cursor ends with the text to complete, which begins where the completions say. -/
theorem exists_before_cursor (g : Grammar) (options : Options) (line : String) (position : Nat) :
    ∃ pre, takeBytes position line.toList = pre ++ (g.fragment options line position).toList ∧
      byteLength pre = (g.complete options line position).start := by
  unfold fragment complete
  cases hs : g.suggest options (String.ofList (takeBytes position line.toList)) with
  | error e => exact ⟨takeBytes position line.toList, by simp [hs]⟩
  | ok report =>
    cases hu : report.unfinished with
    | none => exact ⟨takeBytes position line.toList, by simp [hs, hu]⟩
    | some u =>
      obtain ⟨t, ht, hut⟩ := exists_read_of_suggest_eq_ok hs
      obtain ⟨pre, hcs, hstart⟩ := (g.tokenizes_tokenizeFrom options.limits 0 _).unfinished_spans ht (hut.trans hu)
      rw [String.toList_ofList] at hcs
      exact ⟨pre, by simpa [hu] using hcs, by simp [hs, hu, hstart]⟩

/-- What an edit replaces begins and ends inside the line, and begins at a boundary.  It ends at one, and is the text
that the suggestions are to complete, just if the cursor, moved back into the line, does not lie inside a character. -/
theorem edit_replaces_fragment_iff (g : Grammar) (options : Options) (line : String) (position : Nat) {e : Edit}
    (he : e ∈ g.edits options line position) :
    e.start ≤ e.stop ∧ e.stop ≤ line.utf8ByteSize ∧ IsBoundary line.toList e.start ∧
      (IsBoundary line.toList e.stop ↔ IsBoundary line.toList (min position line.utf8ByteSize)) ∧
      (Slices line.toList e.start e.stop (g.fragment options line position).toList ↔
        IsBoundary line.toList (min position line.utf8ByteSize)) := by
  obtain ⟨pre, hbefore, hstart⟩ := g.exists_before_cursor options line position
  have hline := takeBytes_append_dropBytes position line.toList
  rw [← byteLength_toList]
  -- the cursor is never moved forward
  have hcursor : byteLength (takeBytes position line.toList) ≤ min position (byteLength line.toList) := by
    rw [← takeBytes_min]
    exact byteLength_takeBytes_le _ _
  have hle : byteLength pre ≤ min position (byteLength line.toList) := by
    rw [hbefore, byteLength_append] at hcursor
    exact Nat.le_trans (Nat.le_add_right _ _) hcursor
  have hspan : e.start = byteLength pre ∧ e.stop = min position (byteLength line.toList) := by
    obtain ⟨s, -, rfl⟩ := List.mem_map.1 he
    refine ⟨hstart.symm, ?_⟩
    rw [← hstart, ← byteLength_toList]
    exact Nat.max_eq_left hle
  rw [hspan.1, hspan.2]
  refine ⟨hle, Nat.min_le_right _ _, ?_, Iff.rfl, ?_⟩
  · rw [hbefore, List.append_assoc] at hline
    exact ⟨pre, _, hline.symm, rfl⟩
  · constructor
    · rintro ⟨before, post, hcs, -, hstop⟩
      exact ⟨before ++ _, post, hcs, by rw [byteLength_append, hstop]⟩
    · intro hb
      rw [isBoundary_iff, takeBytes_min, hbefore, byteLength_append] at hb
      rw [hbefore] at hline
      exact ⟨pre, _, hline.symm, rfl, hb⟩

/-- A letter that has been typed before the cursor is replaced as a whole. -/
theorem edit_replaces_letter : Slices " aé".toList 1 2 "a".toList := by
  have he : letterGrammar.edits {} " aé" 2 = [⟨"a", "A", 1, 2, true⟩] := by cbv
  have hf : letterGrammar.fragment {} " aé" 2 = "a" := by cbv
  have hmem : (⟨"a", "A", 1, 2, true⟩ : Edit) ∈ letterGrammar.edits {} " aé" 2 := by simp [he]
  obtain ⟨-, -, -, -, hslice⟩ := edit_replaces_fragment_iff letterGrammar {} " aé" 2 hmem
  rw [hf] at hslice
  exact hslice.2 (by decide)

/-- A cursor inside a character is the end of an edit, which then replaces half of the character. -/
theorem edit_ends_inside_character :
    letterGrammar.edits {} "é" 1 = [⟨"a", "A", 0, 1, true⟩] ∧ ¬ IsBoundary "é".toList 1 ∧
      ¬ Slices "é".toList 0 1 (letterGrammar.fragment {} "é" 1).toList := by
  have hb : ¬ IsBoundary "é".toList 1 := by decide
  refine ⟨by cbv, hb, ?_⟩
  rintro ⟨pre, post, hcs, -, hstop⟩
  exact hb ⟨pre ++ _, post, hcs, by rw [byteLength_append, hstop]⟩

end Grammar

end Typeahead
