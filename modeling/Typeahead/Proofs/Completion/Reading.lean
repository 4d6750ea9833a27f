import Typeahead.Proofs.Completion.LongestMatch
import Typeahead.Proofs.Except

/-!
# How a text is read

The tokenizer confirms one match after the other until nothing more can be confirmed.  `Grammar.Confirms` says when the
match at the beginning of a text is confirmed, and `Grammar.Tokenizes` lists all that the tokenizer can do
(`tokenizes_tokenizeFrom`), so that facts about its results are proved by induction on this relation.

A scan that has died out does not depend on what stands behind the text (`scan_append`), hence a confirmed match stays
confirmed when the text grows (`Confirms.append`).
-/

namespace Typeahead.Grammar

variable {g : Grammar} {limits : Limits} {position : Nat} {cs ds : List Char} {munch : Munch}

/-! ### Scans of growing texts -/

/-- Where no token can go on, further characters are not looked at. -/
theorem scanFrom_append {frontier : List Configuration} {read : Nat} {best : Option Munch} {stats : Stats}
    (h : (g.scanFrom limits frontier read best stats cs).live = false) (ds : List Char) :
    g.scanFrom limits frontier read best stats (cs ++ ds) = g.scanFrom limits frontier read best stats cs := by
  induction cs generalizing frontier read best stats with
  | nil =>
    -- the frontier has died out just at the end of the text
    have hf : frontier = [] := by simpa [scanFrom] using h
    subst hf
    cases ds with
    | nil => rfl
    | cons d ds => exact scanFrom_cons_of_eq_nil rfl
  | cons c cs ih =>
    rw [List.cons_append]
    by_cases hs : g.lexical.step frontier c = []
    · rw [scanFrom_cons_of_eq_nil hs, scanFrom_cons_of_eq_nil hs]
    · rw [scanFrom_cons_of_ne_nil hs] at h ⊢
      rw [scanFrom_cons_of_ne_nil hs, ih h]

theorem scan_append (h : (g.scan limits cs).live = false) (ds : List Char) :
    g.scan limits (cs ++ ds) = g.scan limits cs :=
  scanFrom_append h ds

/-! ### Confirmed matches -/

/-- The match at the beginning of the text neither ends the text nor could become longer. -/
structure Confirms (g : Grammar) (limits : Limits) (cs : List Char) (munch : Munch) : Prop where
  best : (g.scan limits cs).best = some munch
  live : (g.scan limits cs).live = false
  lt_length : munch.extra + 1 < cs.length

/-- The token of a match at the beginning of a text. -/
def tokenOf (position : Nat) (cs : List Char) (munch : Munch) : Token :=
  ⟨munch.kind, .ofList (cs.take (munch.extra + 1)), position, position + byteLength (cs.take (munch.extra + 1))⟩

/-- A confirmed match in front of what follows it; it is dropped if its kind is skipped. -/
def withMatch (g : Grammar) (limits : Limits) (position : Nat) (cs : List Char) (munch : Munch)
    (following : Tokenization) : Tokenization :=
  { following with
    tokens := if g.skips munch.kind then following.tokens else tokenOf position cs munch :: following.tokens
    stats := (g.scan limits cs).stats + following.stats }

theorem tokens_withMatch (following : Tokenization) : (g.withMatch limits position cs munch following).tokens =
    if g.skips munch.kind then following.tokens else tokenOf position cs munch :: following.tokens := rfl

/-- Behind a confirmed match the text is read from the end of the match. -/
theorem Confirms.tokenizeFrom_eq (h : g.Confirms limits cs munch) (position : Nat) :
    g.tokenizeFrom limits position cs =
      (g.tokenizeFrom limits (position + byteLength (cs.take (munch.extra + 1))) (cs.drop (munch.extra + 1))).map
        (g.withMatch limits position cs munch) := by
  cases cs with
  | nil => exact absurd h.lt_length (Nat.not_lt_zero _)
  | cons c cs =>
    have hrest : (cs.drop munch.extra).isEmpty = false := by
      have hlt := h.lt_length
      rw [List.length_cons] at hlt
      rw [List.isEmpty_eq_false_iff, ne_eq, List.drop_eq_nil_iff]
      omega
    rw [tokenizeFrom]
    simp only [h.best, h.live, hrest, Bool.and_false, Bool.or_self, Bool.false_eq_true, if_false,
      List.take_succ_cons, List.drop_succ_cons]
    rfl

/-- A confirmed match does not depend on where the text ends. -/
theorem Confirms.append (h : g.Confirms limits cs munch) (ds : List Char) : g.Confirms limits (cs ++ ds) munch := by
  have hs := scan_append h.live ds
  refine ⟨hs ▸ h.best, hs ▸ h.live, ?_⟩
  rw [List.length_append]
  exact Nat.lt_add_right _ h.lt_length

/-- A longer text is read in the same way up to the end of the match. -/
theorem Confirms.tokenizeFrom_append (h : g.Confirms limits cs munch) (position : Nat) (ds : List Char) :
    g.tokenizeFrom limits position (cs ++ ds) =
      (g.tokenizeFrom limits (position + byteLength (cs.take (munch.extra + 1)))
        (cs.drop (munch.extra + 1) ++ ds)).map (g.withMatch limits position cs munch) := by
  have hle := Nat.le_of_lt h.lt_length
  rw [(h.append ds).tokenizeFrom_eq position, List.take_append_of_le_length hle, List.drop_append_of_le_length hle]
  congr 1
  unfold withMatch tokenOf
  rw [List.take_append_of_le_length hle, scan_append h.live]

/-- Where no token matches and none could go on, reading fails. -/
theorem tokenizeFrom_of_stuck (hcs : cs ≠ []) (hb : (g.scan limits cs).best = none)
    (hl : (g.scan limits cs).live = false) (position : Nat) :
    g.tokenizeFrom limits position cs = .error ⟨position, .ofList (cs.take snippetLength)⟩ := by
  cases cs with
  | nil => exact absurd rfl hcs
  | cons c cs =>
    rw [tokenizeFrom]
    simp only [hb, hl, Bool.false_eq_true, if_false]

/-! ### All that the tokenizer does -/

/-- What becomes of a text that begins at the byte `position`. -/
inductive Tokenizes (g : Grammar) (limits : Limits) : Nat → List Char → Except LexicalError Tokenization → Prop where
  | finished {position : Nat} : Tokenizes g limits position [] (.ok {})
  /-- A match that is dropped ends the text. -/
  | ended {position : Nat} {cs : List Char} {munch : Munch} (hb : (g.scan limits cs).best = some munch)
    (hs : g.skips munch.kind = true) (hn : cs.length ≤ munch.extra + 1) :
    Tokenizes g limits position cs (.ok ⟨[], none, (g.scan limits cs).stats⟩)
  /-- A match ends the text, or some token could go on at the end of the text. -/
  | unfinished {position : Nat} {cs : List Char} (hcs : cs ≠ [])
    (hl : (∃ munch, (g.scan limits cs).best = some munch ∧ cs.length ≤ munch.extra + 1) ∨
      (g.scan limits cs).live = true) :
    Tokenizes g limits position cs (.ok ⟨[], some ⟨.ofList cs, position⟩, (g.scan limits cs).stats⟩)
  /-- No token matches, and none could go on. -/
  | stuck {position : Nat} {cs : List Char} (hcs : cs ≠ []) (hb : (g.scan limits cs).best = none)
    (hl : (g.scan limits cs).live = false) :
    Tokenizes g limits position cs (.error ⟨position, .ofList (cs.take snippetLength)⟩)
  | confirmed {position : Nat} {cs : List Char} {munch : Munch} {r : Except LexicalError Tokenization}
    (hm : g.Confirms limits cs munch)
    (h : Tokenizes g limits (position + byteLength (cs.take (munch.extra + 1))) (cs.drop (munch.extra + 1)) r) :
    Tokenizes g limits position cs (r.map (g.withMatch limits position cs munch))

/-- The tokenizer does one of these things with each text. -/
theorem tokenizes_tokenizeFrom (g : Grammar) (limits : Limits) (position : Nat) (cs : List Char) :
    g.Tokenizes limits position cs (g.tokenizeFrom limits position cs) := by
  induction hlen : cs.length using Nat.strong_induction_on generalizing position cs with
  | h len ih =>
    cases cs with
    | nil =>
      rw [tokenizeFrom]
      exact .finished
    | cons c cs =>
      by_cases hm : ∃ munch, g.Confirms limits (c :: cs) munch
      · obtain ⟨munch, hm⟩ := hm
        rw [hm.tokenizeFrom_eq]
        refine .confirmed hm (ih _ ?_ _ _ rfl)
        rw [List.length_drop, ← hlen, List.length_cons]
        omega
      · rw [tokenizeFrom]
        cases hb : (g.scan limits (c :: cs)).best with
        | none =>
          dsimp only
          split
          · rename_i hl
            exact .unfinished (List.cons_ne_nil c cs) (Or.inr hl)
          · rename_i hl
            exact .stuck (List.cons_ne_nil c cs) hb (Bool.eq_false_iff.2 hl)
        | some munch =>
          have hrest : (cs.drop munch.extra).isEmpty = true ↔ (c :: cs).length ≤ munch.extra + 1 := by
            rw [List.isEmpty_iff, List.drop_eq_nil_iff, List.length_cons, Nat.add_le_add_iff_right]
          dsimp only
          split
          · rename_i hs
            obtain ⟨hs, he⟩ := Bool.and_eq_true_iff.1 hs
            exact .ended hb hs (hrest.1 he)
          · split
            · rename_i hl
              refine .unfinished (List.cons_ne_nil c cs) ?_
              rcases Bool.or_eq_true_iff.1 hl with he | hl
              · exact Or.inl ⟨munch, hb, hrest.1 he⟩
              · exact Or.inr hl
            · -- otherwise the match would be confirmed
              rename_i hl
              rw [Bool.or_eq_true, not_or, hrest] at hl
              exact absurd ⟨munch, hb, Bool.eq_false_iff.2 hl.2, Nat.lt_of_not_le hl.1⟩ hm

end Typeahead.Grammar
