import Mathlib
import Typeahead.Proofs.Completion.LongestMatch
import Typeahead.Proofs.Except

/-!
# The tokenizer is the maximal-munch lexer

`Declarations.Lexes` says what the tokens of a text are, in terms of the lexical expressions as they are written: at
each place the longest match wins, and at that length the lowest kind.  If none of its scans is cut short, the tokenizer
of a built grammar computes just this (`Grammar.tokenize_exact`).
-/

namespace Typeahead

namespace Declarations

/-- Tokens of this kind are dropped. -/
def Skips (d : Declarations) (kind : TokenKind) : Prop := ∃ t, d.tokens[kind]? = some t ∧ t.skip = true

/-- The tokens and the unfinished rest of a text that begins at the byte `position`, or the error. -/
inductive Lexes (d : Declarations) :
    Nat → List Char → Except LexicalError (List Token × Option Unfinished) → Prop where
  | finished {position : Nat} : Lexes d position [] (.ok ([], none))
  /-- A dropped match that ends the text. -/
  | ended {position : Nat} {cs : List Char} {kind : TokenKind} (hm : d.Munches cs kind cs.length) (hs : d.Skips kind) :
    Lexes d position cs (.ok ([], none))
  /-- Any other match that ends the text, or could still become longer. -/
  | unfinished {position : Nat} {cs : List Char} {kind : TokenKind} {n : Nat} (hm : d.Munches cs kind n)
    (hs : ¬ (n = cs.length ∧ d.Skips kind)) (hl : n = cs.length ∨ d.Live cs) :
    Lexes d position cs (.ok ([], some ⟨.ofList cs, position⟩))
  /-- A confirmed match. -/
  | confirmed {position : Nat} {cs : List Char} {kind : TokenKind} {n : Nat}
    {r : Except LexicalError (List Token × Option Unfinished)} (hm : d.Munches cs kind n) (hn : n ≠ cs.length)
    (hl : ¬ d.Live cs) (hs : ¬ d.Skips kind) (h : Lexes d (position + byteLength (cs.take n)) (cs.drop n) r) :
    Lexes d position cs (r.map fun (tokens, rest) =>
      (⟨kind, .ofList (cs.take n), position, position + byteLength (cs.take n)⟩ :: tokens, rest))
  /-- A confirmed match that is dropped. -/
  | dropped {position : Nat} {cs : List Char} {kind : TokenKind} {n : Nat}
    {r : Except LexicalError (List Token × Option Unfinished)} (hm : d.Munches cs kind n) (hn : n ≠ cs.length)
    (hl : ¬ d.Live cs) (hs : d.Skips kind) (h : Lexes d (position + byteLength (cs.take n)) (cs.drop n) r) :
    Lexes d position cs r
  /-- No match, but some token is still live at the end of the text. -/
  | begun {position : Nat} {cs : List Char} (hcs : cs ≠ []) (hm : ∀ kind n, ¬ d.Matches cs kind n) (hl : d.Live cs) :
    Lexes d position cs (.ok ([], some ⟨.ofList cs, position⟩))
  /-- No match and no live token. -/
  | stuck {position : Nat} {cs : List Char} (hcs : cs ≠ []) (hm : ∀ kind n, ¬ d.Matches cs kind n) (hl : ¬ d.Live cs) :
    Lexes d position cs (.error ⟨position, .ofList (cs.take snippetLength)⟩)

variable {d : Declarations} {g : Grammar} {cs : List Char} {kind : TokenKind} {n : Nat}

/-- There is one longest match of the lowest kind at most. -/
theorem Munches.unique {kind' : TokenKind} {n' : Nat} (h : d.Munches cs kind n) (h' : d.Munches cs kind' n') :
    kind = kind' ∧ n = n' := by
  have h₁ := h.2 kind' n' h'.1
  have h₂ := h'.2 kind n h.1
  have hn : n = n' := by omega
  refine ⟨Nat.le_antisymm ?_ ?_, hn⟩
  · rcases h₁ with h₁ | ⟨-, h₁⟩
    · omega
    · exact h₁
  · rcases h₂ with h₂ | ⟨-, h₂⟩
    · omega
    · exact h₂

theorem Built.skips_iff (h : Built d g) : g.skips kind = true ↔ d.Skips kind := by
  unfold Grammar.skips Skips
  rw [h.tokens kind]
  cases d.tokens[kind]? with
  | none => simp
  | some t => simp [tokenEntry]

end Declarations

namespace Grammar

/-! ### The scans of a run -/

/-- The scans that the tokenizer makes, one at each place where it looks for a match. -/
def scansFrom (g : Grammar) (limits : Limits) (cs : List Char) : List Scan :=
  match cs with
  | [] => []
  | c :: cs =>
    let scanned := g.scan limits (c :: cs)
    match scanned.best with
    | none => [scanned]
    | some munch =>
      let rest := cs.drop munch.extra
      if rest.isEmpty || scanned.live then [scanned] else scanned :: scansFrom g limits rest
termination_by cs.length
decreasing_by
  simp only [List.length_drop, List.length_cons]
  omega

/-- The tokens and the unfinished rest, without the counters. -/
def outcomeFrom (g : Grammar) (limits : Limits) (position : Nat) (cs : List Char) :
    Except LexicalError (List Token × Option Unfinished) :=
  (g.tokenizeFrom limits position cs).map fun t => (t.tokens, t.unfinished)

variable {d : Declarations} {g : Grammar} {limits : Limits} {position : Nat} {c : Char} {cs : List Char} {munch : Munch}

private theorem outcomeFrom_of_none (hb : (g.scan limits (c :: cs)).best = none) :
    g.outcomeFrom limits position (c :: cs) =
      if (g.scan limits (c :: cs)).live then .ok ([], some ⟨String.ofList (c :: cs), position⟩)
      else .error ⟨position, String.ofList ((c :: cs).take snippetLength)⟩ := by
  unfold outcomeFrom
  rw [tokenizeFrom]
  simp only [hb]
  split <;> rfl

private theorem outcomeFrom_of_some (hb : (g.scan limits (c :: cs)).best = some munch) :
    g.outcomeFrom limits position (c :: cs) =
      if g.skips munch.kind && (cs.drop munch.extra).isEmpty then .ok ([], none)
      else if (cs.drop munch.extra).isEmpty || (g.scan limits (c :: cs)).live then
        .ok ([], some ⟨String.ofList (c :: cs), position⟩)
      else
        (g.outcomeFrom limits (position + byteLength (c :: cs.take munch.extra)) (cs.drop munch.extra)).map
          fun (tokens, rest) =>
            (if g.skips munch.kind then tokens
              else ⟨munch.kind, String.ofList (c :: cs.take munch.extra), position,
                position + byteLength (c :: cs.take munch.extra)⟩ :: tokens, rest) := by
  unfold outcomeFrom
  rw [tokenizeFrom]
  simp only [hb]
  split
  · rfl
  · split
    · rfl
    · cases g.tokenizeFrom limits (position + byteLength (c :: cs.take munch.extra)) (cs.drop munch.extra) with
      | error e => rfl
      | ok t => rfl

private theorem mem_scansFrom_self : g.scan limits (c :: cs) ∈ g.scansFrom limits (c :: cs) := by
  rw [scansFrom]
  split
  · exact List.mem_cons_self ..
  · dsimp only
    split
    · exact List.mem_cons_self ..
    · exact List.mem_cons_self ..

private theorem mem_scansFrom_drop (hb : (g.scan limits (c :: cs)).best = some munch)
    (hn : (cs.drop munch.extra).isEmpty = false) (hl : (g.scan limits (c :: cs)).live = false) {scanned : Scan}
    (h : scanned ∈ g.scansFrom limits (cs.drop munch.extra)) : scanned ∈ g.scansFrom limits (c :: cs) := by
  rw [scansFrom]
  simp only [hb, hn, hl, Bool.or_self, Bool.false_eq_true, if_false]
  exact List.mem_cons_of_mem _ h

/-! ### Against the expressions as they are written -/

/-- What the tokenizer does where a token matches. -/
private theorem outcomeFrom_of_munches (position : Nat) (h : d.Built g)
    (hz : ∀ scanned ∈ g.scansFrom limits cs, scanned.stats.Complete) {kind : TokenKind} {n : Nat}
    (hm : d.Munches cs kind n) :
    (n = cs.length → d.Skips kind → g.outcomeFrom limits position cs = .ok ([], none)) ∧
    (¬ (n = cs.length ∧ d.Skips kind) → (n = cs.length ∨ d.Live cs) →
      g.outcomeFrom limits position cs = .ok ([], some ⟨.ofList cs, position⟩)) ∧
    (n ≠ cs.length → ¬ d.Live cs →
      (∀ scanned ∈ g.scansFrom limits (cs.drop n), scanned.stats.Complete) ∧
      (¬ d.Skips kind → g.outcomeFrom limits position cs =
        (g.outcomeFrom limits (position + byteLength (cs.take n)) (cs.drop n)).map fun (tokens, rest) =>
          (⟨kind, .ofList (cs.take n), position, position + byteLength (cs.take n)⟩ :: tokens, rest)) ∧
      (d.Skips kind → g.outcomeFrom limits position cs =
        g.outcomeFrom limits (position + byteLength (cs.take n)) (cs.drop n))) := by
  obtain ⟨c, cs, rfl⟩ : ∃ c cs', cs = c :: cs' := by
    cases cs with
    | nil =>
      obtain ⟨⟨hpos, hle, -⟩, -⟩ := hm
      rw [List.length_nil] at hle
      omega
    | cons c cs => exact ⟨c, cs, rfl⟩
  obtain ⟨hfound, hlive⟩ := scan_exact h (hz _ mem_scansFrom_self)
  cases hb : (g.scan limits (c :: cs)).best with
  | none =>
    rw [hb] at hfound
    exact absurd hm.1 (hfound kind n)
  | some munch =>
    rw [hb] at hfound
    -- the best match of the scan is the given one
    obtain ⟨rfl, rfl⟩ := Declarations.Munches.unique hfound hm
    have hle : munch.extra ≤ cs.length := by
      have hle := hm.1.2.1
      rw [List.length_cons] at hle
      omega
    have hempty : (cs.drop munch.extra).isEmpty = true ↔ munch.extra + 1 = (c :: cs).length := by
      rw [List.isEmpty_iff, List.drop_eq_nil_iff, List.length_cons]
      omega
    rw [outcomeFrom_of_some hb]
    refine ⟨fun hn hs => ?_, fun hs hor => ?_, fun hn hl => ?_⟩
    · rw [if_pos]
      rw [h.skips_iff.2 hs, hempty.2 hn]
      rfl
    · rw [if_neg, if_pos]
      · rw [Bool.or_eq_true, hempty, hlive]
        exact hor
      · rw [Bool.and_eq_true, h.skips_iff, hempty]
        exact fun hboth => hs ⟨hboth.2, hboth.1⟩
    · have hn' : (cs.drop munch.extra).isEmpty = false := Bool.eq_false_iff.2 fun he => hn (hempty.1 he)
      have hl' : (g.scan limits (c :: cs)).live = false := Bool.eq_false_iff.2 fun he => hl (hlive.1 he)
      refine ⟨fun scanned hs => hz scanned (mem_scansFrom_drop hb hn' hl' hs), ?_⟩
      rw [hn', hl', Bool.and_false, Bool.or_self, if_neg Bool.false_ne_true, if_neg Bool.false_ne_true]
      constructor
      · intro hs
        rw [← h.skips_iff, Bool.not_eq_true] at hs
        simp only [hs, Bool.false_eq_true, if_false]
        rfl
      · intro hs
        simp only [h.skips_iff.2 hs, if_true, List.take_succ_cons, List.drop_succ_cons]
        cases g.outcomeFrom limits (position + byteLength (c :: cs.take munch.extra)) (cs.drop munch.extra) <;> rfl

/-- What the tokenizer does where no token matches. -/
private theorem outcomeFrom_of_no_match (position : Nat) (h : d.Built g)
    (hz : ∀ scanned ∈ g.scansFrom limits cs, scanned.stats.Complete) (hcs : cs ≠ [])
    (hm : ∀ kind n, ¬ d.Matches cs kind n) :
    (d.Live cs → g.outcomeFrom limits position cs = .ok ([], some ⟨.ofList cs, position⟩)) ∧
      (¬ d.Live cs → g.outcomeFrom limits position cs = .error ⟨position, .ofList (cs.take snippetLength)⟩) := by
  obtain ⟨c, cs, rfl⟩ := List.exists_cons_of_ne_nil hcs
  obtain ⟨hfound, hlive⟩ := scan_exact h (hz _ mem_scansFrom_self)
  cases hb : (g.scan limits (c :: cs)).best with
  | some munch =>
    rw [hb] at hfound
    exact absurd hfound.1 (hm munch.kind (munch.extra + 1))
  | none =>
    rw [outcomeFrom_of_none hb, ← hlive]
    exact ⟨fun hl => if_pos hl, fun hl => if_neg hl⟩

/-- A text is read as the specification says. -/
private theorem outcomeFrom_of_lexes (h : d.Built g) {r : Except LexicalError (List Token × Option Unfinished)}
    (hr : d.Lexes position cs r) (hz : ∀ scanned ∈ g.scansFrom limits cs, scanned.stats.Complete) :
    g.outcomeFrom limits position cs = r := by
  induction hr with
  | finished =>
    unfold outcomeFrom
    rw [tokenizeFrom]
    rfl
  | ended hm hs => exact (outcomeFrom_of_munches _ h hz hm).1 rfl hs
  | unfinished hm hs hl => exact (outcomeFrom_of_munches _ h hz hm).2.1 hs hl
  | confirmed hm hn hl hs _ ih =>
    obtain ⟨hz', he, -⟩ := (outcomeFrom_of_munches _ h hz hm).2.2 hn hl
    rw [he hs, ih hz']
  | dropped hm hn hl hs _ ih =>
    obtain ⟨hz', -, he⟩ := (outcomeFrom_of_munches _ h hz hm).2.2 hn hl
    rw [he hs, ih hz']
  | begun hcs hm hl => exact (outcomeFrom_of_no_match _ h hz hcs hm).1 hl
  | stuck hcs hm hl => exact (outcomeFrom_of_no_match _ h hz hcs hm).2 hl

/-- Each text has an outcome by the specification, that of the tokenizer. -/
private theorem lexes_outcomeFrom (h : d.Built g) (hz : ∀ scanned ∈ g.scansFrom limits cs, scanned.stats.Complete) :
    d.Lexes position cs (g.outcomeFrom limits position cs) := by
  induction hlen : cs.length using Nat.strong_induction_on generalizing position cs with
  | h len ih =>
    by_cases hcs : cs = []
    · subst hcs
      unfold outcomeFrom
      rw [tokenizeFrom]
      exact .finished
    by_cases hm : ∃ kind n, d.Munches cs kind n
    · obtain ⟨kind, n, hm⟩ := hm
      obtain ⟨hended, hunfinished, hpassed⟩ := outcomeFrom_of_munches position h hz hm
      by_cases hs : n = cs.length ∧ d.Skips kind
      · obtain ⟨rfl, hs⟩ := hs
        rw [hended rfl hs]
        exact .ended hm hs
      by_cases hl : n = cs.length ∨ d.Live cs
      · rw [hunfinished hs hl]
        exact .unfinished hm hs hl
      obtain ⟨hn, hl⟩ := not_or.1 hl
      obtain ⟨hz', hconfirmed, hdropped⟩ := hpassed hn hl
      -- the match is confirmed, and what follows is shorter
      have hlt : (cs.drop n).length < len := by
        have hpos := hm.1.1
        have hle := hm.1.2.1
        rw [List.length_drop]
        omega
      have hrest : d.Lexes (position + byteLength (cs.take n)) (cs.drop n)
          (g.outcomeFrom limits (position + byteLength (cs.take n)) (cs.drop n)) := ih _ hlt hz' rfl
      by_cases hskip : d.Skips kind
      · rw [hdropped hskip]
        exact .dropped hm hn hl hskip hrest
      · rw [hconfirmed hskip]
        exact .confirmed hm hn hl hskip hrest
    · -- the scan would have found the best of several matches
      have hno : ∀ kind n, ¬ d.Matches cs kind n := by
        obtain ⟨c, cs, rfl⟩ := List.exists_cons_of_ne_nil hcs
        obtain ⟨hfound, -⟩ := scan_exact h (hz _ mem_scansFrom_self)
        cases hb : (g.scan limits (c :: cs)).best with
        | none =>
          rw [hb] at hfound
          exact hfound
        | some munch =>
          rw [hb] at hfound
          exact absurd ⟨_, _, hfound⟩ hm
      obtain ⟨hbegun, hstuck⟩ := outcomeFrom_of_no_match position h hz hcs hno
      by_cases hl : d.Live cs
      · rw [hbegun hl]
        exact .begun hcs hno hl
      · rw [hstuck hl]
        exact .stuck hcs hno hl

/-- If no scan is cut short, the tokenizer of a built grammar has the outcome of the maximal-munch lexer, and no
other. -/
theorem tokenize_exact (hb : d.build = .ok g) (limits : Limits) (text : String)
    (hz : ∀ scanned ∈ g.scansFrom limits text.toList, scanned.stats.Complete)
    (r : Except LexicalError (List Token × Option Unfinished)) :
    d.Lexes 0 text.toList r ↔ (g.tokenize limits text).map (fun t => (t.tokens, t.unfinished)) = r := by
  have h := Declarations.built_of_build hb
  constructor
  · exact fun hr => outcomeFrom_of_lexes h hr hz
  · rintro rfl
    exact lexes_outcomeFrom h hz

/-- A keyword that is also a word, words, and spaces, which are dropped. -/
def words : Declarations :=
  { tokens := [⟨"AB", .literal "ab", false⟩, ⟨"WORD", .many1 (.ref "LETTER"), false⟩,
      ⟨"SPACE", .many1 (.literal " "), true⟩]
    fragments := [("LETTER", .inClass "a-z")]
    rules := [("start", .atom "AB")]
    start := some "start" }

/-- The grammar built for words. -/
def wordsGrammar : Grammar := words.build.toOption.getD ⟨.empty, .empty, #[], 0⟩

/-- The keyword wins the tie, the spaces are dropped, and the word at the end may still grow. -/
theorem lexes_words :
    words.Lexes 0 "ab  abc".toList (.ok ([⟨0, "ab", 0, 2⟩], some ⟨"abc", 4⟩)) := by
  have hb : words.build = .ok wordsGrammar := by cbv
  have hz : (wordsGrammar.scansFrom {} "ab  abc".toList).all (fun s => decide s.stats.Complete) = true := by cbv
  refine (tokenize_exact hb {} "ab  abc" ?_ _).2 ?_
  · exact fun s hs => of_decide_eq_true (List.all_eq_true.1 hz s hs)
  · cbv

end Grammar

end Typeahead
