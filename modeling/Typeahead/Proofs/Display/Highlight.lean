import Typeahead.Display.Highlight
import Typeahead.Proofs.Completion.Cursor

/-!
# Highlighting keeps the line

The pieces of a line are cut out along the tokens, each of which begins behind the one before (`Shows`, carried along a
reading by `Tokenizes.shows`).  Together they are the line, none of them is empty, and those that are not plain are the
confirmed tokens where they stand, or else what is rejected (`display_keeps_line`).
-/

namespace Typeahead

/-- The pieces that are not plain, each with the byte at which it begins. -/
def styledFrom (start : Nat) : List Piece → List (Nat × Piece)
  | [] => []
  | p :: pieces =>
    if p.style = .plain then styledFrom (start + byteLength p.text.toList) pieces
    else (start, p) :: styledFrom (start + byteLength p.text.toList) pieces

theorem dropBytes_append (pre post : List Char) : dropBytes (byteLength pre) (pre ++ post) = post := by
  have h := takeBytes_append_dropBytes (byteLength pre) (pre ++ post)
  rw [takeBytes_append] at h
  exact List.append_cancel_left h

/-! ### Plain pieces -/

theorem flatMap_plainPiece (cs : List Char) : (plainPiece cs).flatMap (·.text.toList) = cs := by
  cases cs with
  | nil => rfl
  | cons c cs => simp [plainPiece]

theorem text_ne_of_mem_plainPiece {cs : List Char} {p : Piece} (h : p ∈ plainPiece cs) : p.text ≠ "" := by
  cases cs with
  | nil => cases h
  | cons c cs =>
    obtain rfl : p = ⟨.plain, String.ofList (c :: cs)⟩ := List.mem_singleton.1 h
    simp

/-- Plain text in front only moves what follows it. -/
theorem styledFrom_plainPiece_append (start : Nat) (cs : List Char) (pieces : List Piece) :
    styledFrom start (plainPiece cs ++ pieces) = styledFrom (start + byteLength cs) pieces := by
  cases cs with
  | nil => rfl
  | cons c cs => simp [plainPiece, styledFrom]

namespace Grammar

variable {g : Grammar} {limits : Limits} {start position : Nat} {cs gap rest : List Char} {t : Token}
  {tokens : List Token} {pieces : List Piece} {r : Except LexicalError Tokenization}

/-- The pieces make up the text, none of them is empty, and those that are not plain are the tokens. -/
structure Shows (g : Grammar) (start : Nat) (cs : List Char) (tokens : List Token) (pieces : List Piece) : Prop where
  text : pieces.flatMap (·.text.toList) = cs
  nonempty : ∀ p ∈ pieces, p.text ≠ ""
  styled : styledFrom start pieces = tokens.map fun t => (t.start, ⟨g.styleOf t.kind, t.text⟩)

theorem shows_plainPiece (g : Grammar) (start : Nat) (cs : List Char) : g.Shows start cs [] (plainPiece cs) := by
  refine ⟨flatMap_plainPiece cs, fun p => text_ne_of_mem_plainPiece, ?_⟩
  have h := styledFrom_plainPiece_append start cs []
  rwa [List.append_nil] at h

theorem styleOf_ne_plain (g : Grammar) (kind : TokenKind) : g.styleOf kind ≠ .plain := by
  unfold styleOf
  split
  · split <;> simp
  · simp

/-- One more token, behind a gap. -/
theorem Shows.cons (h : g.Shows t.stop rest tokens pieces) (hstart : t.start = start + byteLength gap)
    (hstop : t.stop = t.start + byteLength t.text.toList) (hne : t.text ≠ "") :
    g.Shows start (gap ++ (t.text.toList ++ rest)) (t :: tokens)
      (plainPiece gap ++ ⟨g.styleOf t.kind, t.text⟩ :: pieces) := by
  refine ⟨?_, ?_, ?_⟩
  · rw [List.flatMap_append, flatMap_plainPiece, List.flatMap_cons, h.text]
  · intro p hp
    rcases List.mem_append.1 hp with hp | hp
    · exact text_ne_of_mem_plainPiece hp
    · rcases List.mem_cons.1 hp with rfl | hp
      · exact hne
      · exact h.nonempty p hp
  · rw [styledFrom_plainPiece_append, styledFrom, if_neg (g.styleOf_ne_plain t.kind), List.map_cons, ← hstart, ← hstop,
      h.styled]

/-- A token that stands behind the gap is cut out there. -/
theorem piecesFrom_cons (hstart : t.start = start + byteLength gap)
    (hstop : t.stop = t.start + byteLength t.text.toList) :
    g.piecesFrom start (gap ++ (t.text.toList ++ rest)) (t :: tokens) =
      plainPiece gap ++ ⟨g.styleOf t.kind, t.text⟩ :: g.piecesFrom t.stop rest tokens := by
  have hgap : t.start - start = byteLength gap := by omega
  have hlexeme : t.stop - t.start = byteLength t.text.toList := by omega
  rw [piecesFrom, hgap, hlexeme, takeBytes_append, dropBytes_append, dropBytes_append]

/-- Reading goes on behind `gap`, which is text that has been dropped since the last token. -/
theorem Tokenizes.shows (h : g.Tokenizes limits position cs r) {read : Tokenization} (hr : r = .ok read)
    (start : Nat) (gap : List Char) (hp : position = start + byteLength gap) :
    g.Shows start (gap ++ cs) read.tokens (g.piecesFrom start (gap ++ cs) read.tokens) := by
  induction h generalizing read start gap with
  | finished =>
    cases hr
    exact g.shows_plainPiece start _
  | ended =>
    cases hr
    exact g.shows_plainPiece start _
  | unfinished =>
    cases hr
    exact g.shows_plainPiece start _
  | stuck => cases hr
  | @confirmed position cs munch r hm _ ih =>
    obtain ⟨following, hf, rfl⟩ := except_map_eq_ok.1 hr
    rw [tokens_withMatch]
    split
    · -- the match joins what has been dropped before
      have hrest := ih hf start (gap ++ cs.take (munch.extra + 1)) (by rw [byteLength_append, hp, Nat.add_assoc])
      rwa [List.append_assoc, List.take_append_drop] at hrest
    · have htext : (tokenOf position cs munch).text.toList = cs.take (munch.extra + 1) := String.toList_ofList
      have hstop : (tokenOf position cs munch).stop =
          (tokenOf position cs munch).start + byteLength (tokenOf position cs munch).text.toList := by
        rw [htext]
        rfl
      have hne : (tokenOf position cs munch).text ≠ "" := by
        have hlt := hm.lt_length
        rw [ne_eq, ← String.toList_eq_nil_iff, htext, List.take_eq_nil_iff, not_or]
        exact ⟨Nat.succ_ne_zero _, List.ne_nil_of_length_pos (Nat.zero_lt_of_lt hlt)⟩
      have hcs : gap ++ cs = gap ++ ((tokenOf position cs munch).text.toList ++ cs.drop (munch.extra + 1)) := by
        rw [htext, List.take_append_drop]
      have hrest := ih hf (tokenOf position cs munch).stop [] rfl
      rw [List.nil_append] at hrest
      rw [hcs, piecesFrom_cons hp hstop]
      exact hrest.cons hp hstop hne

/-- Reading fails in front of some text that is left. -/
theorem Tokenizes.error_spans (h : g.Tokenizes limits position cs r) {e : LexicalError} (hr : r = .error e) :
    ∃ pre rest, cs = pre ++ rest ∧ rest ≠ [] ∧ e.position = position + byteLength pre := by
  induction h with
  | finished => cases hr
  | ended => cases hr
  | unfinished => cases hr
  | stuck hcs =>
    cases hr
    exact ⟨[], _, rfl, hcs, rfl⟩
  | @confirmed position cs munch _ _ _ ih =>
    obtain ⟨pre, rest, hcs, hrest, hposition⟩ := ih (except_map_eq_error.1 hr)
    refine ⟨cs.take (munch.extra + 1) ++ pre, rest, ?_, hrest, ?_⟩
    · rw [List.append_assoc, ← hcs, List.take_append_drop]
    · rw [hposition, byteLength_append, Nat.add_assoc]

theorem styleOf_eq (g : Grammar) (kind : TokenKind) :
    g.styleOf kind = if (g.spellings kind).isEmpty then .value else .keyword := by
  unfold styleOf spellings TokenDef.isLiteral
  cases g.token? kind with
  | none => rfl
  | some t =>
    dsimp only
    cases t.spellings.isEmpty with
    | true => rfl
    | false => rfl

/-- The pieces of a line are the line, and if highlighting is turned on, none of them is empty.  Those that are not
plain are then the confirmed tokens, shown as keywords if they have spellings; if the line cannot be read, there is just
one, from the place of the error to the end of the line. -/
theorem display_keeps_line (g : Grammar) (limits : Limits) (line : String) :
    (∀ enabled, String.join ((g.display enabled limits line).map (·.text)) = line) ∧
    (∀ p ∈ g.display true limits line, p.text ≠ "") ∧
    (∀ read, g.tokenize limits line = .ok read →
      styledFrom 0 (g.display true limits line) = read.tokens.map fun t =>
        (t.start, ⟨if (g.spellings t.kind).isEmpty then .value else .keyword, t.text⟩)) ∧
    ∀ e, g.tokenize limits line = .error e →
      ∃ text, styledFrom 0 (g.display true limits line) = [(e.position, ⟨.rejected, text⟩)] ∧
        Slices line.toList e.position line.utf8ByteSize text.toList := by
  have hjoin : ∀ pieces : List Piece, pieces.flatMap (·.text.toList) = line.toList →
      String.join (pieces.map (·.text)) = line := by
    intro pieces h
    rw [← String.toList_inj, String.toList_join, List.flatMap_map, h]
  have hdisabled : String.join ((g.display false limits line).map (·.text)) = line := hjoin _ (by simp [display])
  have hreads := g.tokenizes_tokenizeFrom limits 0 line.toList
  cases hr : g.tokenize limits line with
  | ok read =>
    have hshows := hreads.shows hr 0 [] rfl
    rw [List.nil_append] at hshows
    have hpieces : g.display true limits line = g.piecesFrom 0 line.toList read.tokens := by
      simp [display, highlight, hr]
    rw [← hpieces] at hshows
    refine ⟨Bool.forall_bool.2 ⟨hdisabled, hjoin _ hshows.text⟩, hshows.nonempty, ?_, nofun⟩
    rintro read ⟨⟩
    simp only [hshows.styled, styleOf_eq]
  | error e =>
    obtain ⟨pre, rest, hline, hne, hposition⟩ := hreads.error_spans hr
    rw [Nat.zero_add] at hposition
    have hpieces : g.display true limits line = plainPiece pre ++ [⟨.rejected, String.ofList rest⟩] := by
      simp only [display, highlight, hr, hposition, hline, takeBytes_append, dropBytes_append, if_true]
    rw [hpieces]
    refine ⟨Bool.forall_bool.2 ⟨hdisabled, ?_⟩, ?_, nofun, ?_⟩
    · rw [hpieces]
      refine hjoin _ ?_
      rw [List.flatMap_append, flatMap_plainPiece, hline]
      simp
    · intro p hp
      rcases List.mem_append.1 hp with hp | hp
      · exact text_ne_of_mem_plainPiece hp
      · rw [List.mem_singleton] at hp
        simp [hp, hne]
    · rintro e ⟨⟩
      refine ⟨String.ofList rest, ?_, pre, [], ?_, hposition.symm, ?_⟩
      · rw [styledFrom_plainPiece_append, Nat.zero_add, hposition]
        rfl
      · rw [List.append_nil, String.toList_ofList, hline]
      · rw [← byteLength_toList, String.toList_ofList, hline, byteLength_append]

end Grammar

end Typeahead
