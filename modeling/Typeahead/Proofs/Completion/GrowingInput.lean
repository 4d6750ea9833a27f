import Mathlib
import Typeahead.Completion.Suggestion
import Typeahead.Proofs.Completion.Expectation
import Typeahead.Proofs.Completion.Reading

/-!
# Input that grows at its end

Typing more never takes back what is confirmed.  A lexical error stays where it is (`Tokenizes.append_of_error`), the
tokens of a text are the first tokens of each longer text (`Tokenizes.keeps_append`), and tokens that no phrase begins
with are not mended by what follows them.
-/

namespace Typeahead.Grammar

variable {g : Grammar} {limits : Limits} {position : Nat} {cs : List Char}
  {r : Except LexicalError Tokenization}

/-- Reading does not fail before the place where it begins. -/
theorem Tokenizes.position_le (h : g.Tokenizes limits position cs r) {e : LexicalError} (hr : r = .error e) :
    position ≤ e.position := by
  induction h with
  | finished => cases hr
  | ended => cases hr
  | unfinished => cases hr
  | stuck =>
    cases hr
    exact Nat.le_refl _
  | confirmed _ _ ih => exact Nat.le_trans (Nat.le_add_right _ _) (ih (except_map_eq_error.1 hr))

/-- Where reading fails, it fails however the text goes on. -/
theorem Tokenizes.append_of_error (h : g.Tokenizes limits position cs r) {e : LexicalError} (hr : r = .error e)
    (ds : List Char) : ∃ e', g.tokenizeFrom limits position (cs ++ ds) = .error e' ∧ e'.position = e.position := by
  induction h with
  | finished => cases hr
  | ended => cases hr
  | unfinished => cases hr
  | stuck hcs hb hl =>
    cases hr
    have hs := scan_append hl ds
    exact ⟨_, tokenizeFrom_of_stuck (List.append_ne_nil_of_left_ne_nil hcs ds) (hs ▸ hb) (hs ▸ hl) _, rfl⟩
  | confirmed hm _ ih =>
    obtain ⟨e', he, hp⟩ := ih (except_map_eq_error.1 hr)
    refine ⟨e', ?_, hp⟩
    rw [hm.tokenizeFrom_append, he]
    rfl

/-- A reading has the tokens as its first ones, or fails behind them. -/
def Keeps (tokens : List Token) (position : Nat) : Except LexicalError Tokenization → Prop
  | .ok t => tokens <+: t.tokens
  | .error e => position ≤ e.position ∧ ∀ x ∈ tokens, x.stop ≤ e.position

theorem keeps_nil (g : Grammar) (limits : Limits) (position : Nat) (cs : List Char) :
    Keeps [] position (g.tokenizeFrom limits position cs) := by
  have h := g.tokenizes_tokenizeFrom limits position cs
  cases he : g.tokenizeFrom limits position cs with
  | ok t => exact List.nil_prefix
  | error e => exact ⟨h.position_le he, by simp⟩

/-- A confirmed match in front is kept as well. -/
theorem Keeps.withMatch {munch : Munch} {t : Tokenization}
    (h : Keeps t.tokens (position + byteLength (cs.take (munch.extra + 1))) r) :
    Keeps (g.withMatch limits position cs munch t).tokens position (r.map (g.withMatch limits position cs munch)) := by
  cases r with
  | ok t' =>
    show (g.withMatch limits position cs munch t).tokens <+: (g.withMatch limits position cs munch t').tokens
    rw [tokens_withMatch, tokens_withMatch]
    split
    · exact h
    · exact List.cons_prefix_cons.2 ⟨rfl, h⟩
  | error e =>
    obtain ⟨hle, hstop⟩ := h
    refine ⟨Nat.le_trans (Nat.le_add_right _ _) hle, ?_⟩
    rw [tokens_withMatch]
    split
    · exact hstop
    · exact List.forall_mem_cons.2 ⟨hle, hstop⟩

/-- What is confirmed of a text is confirmed of each longer text, whose reading can fail behind it only. -/
theorem Tokenizes.keeps_append (h : g.Tokenizes limits position cs r) {t : Tokenization} (hr : r = .ok t)
    (ds : List Char) : Keeps t.tokens position (g.tokenizeFrom limits position (cs ++ ds)) := by
  induction h generalizing t with
  | finished =>
    cases hr
    exact keeps_nil ..
  | ended =>
    cases hr
    exact keeps_nil ..
  | unfinished =>
    cases hr
    exact keeps_nil ..
  | stuck => cases hr
  | confirmed hm _ ih =>
    obtain ⟨t, ht, rfl⟩ := except_map_eq_ok.1 hr
    rw [hm.tokenizeFrom_append]
    exact (ih ht).withMatch

/-! ### Requests -/

/-- A request fails on its tokens only after they have been read. -/
theorem suggest_eq_noViableParse_iff {options : Options} {s : String} {e : NoViableParse} :
    g.suggest options s = .error (.noViableParse e) ↔
      ∃ t, g.tokenize options.limits s = .ok t ∧ g.simulate options.limits t.tokens = .error e := by
  unfold suggest
  cases g.tokenize options.limits s with
  | error e' => simp
  | ok t =>
    cases hs : g.simulate options.limits t.tokens with
    | error e' => simp [hs]
    | ok parsed => simp [hs]

theorem suggest_eq_lexical_iff {options : Options} {s : String} {e : LexicalError} :
    g.suggest options s = .error (.lexical e) ↔ g.tokenize options.limits s = .error e := by
  unfold suggest
  cases g.tokenize options.limits s with
  | error e' => simp
  | ok t => cases hs : g.simulate options.limits t.tokens <;> simp [hs]

/-- A report shows the unfinished text as it was read. -/
theorem exists_read_of_suggest_eq_ok {options : Options} {s : String} {report : Report}
    (h : g.suggest options s = .ok report) :
    ∃ t, g.tokenize options.limits s = .ok t ∧ t.unfinished = report.unfinished := by
  unfold suggest at h
  cases ht : g.tokenize options.limits s with
  | error e =>
    rw [ht] at h
    cases h
  | ok t =>
    cases hp : g.simulate options.limits t.tokens with
    | error e => simp [ht, hp] at h
    | ok parsed =>
      simp only [ht, hp, Except.ok.injEq] at h
      exact ⟨t, rfl, h ▸ rfl⟩

/-- Typing more keeps what is confirmed.  A lexical error stays at its place; the tokens of the shorter text are the
first tokens of the longer one, which can fail behind them only; and a text whose tokens no phrase begins with still
fails at the same token, unless it already fails to be read. -/
theorem growing_input (g : Grammar) (limits : Limits) (s t : String) :
    (∀ e, g.tokenize limits s = .error e →
      ∃ e', g.tokenize limits (s ++ t) = .error e' ∧ e'.position = e.position) ∧
    (∀ r, g.tokenize limits s = .ok r →
      (∃ r', g.tokenize limits (s ++ t) = .ok r' ∧ r.tokens <+: r'.tokens) ∨
        ∃ e, g.tokenize limits (s ++ t) = .error e ∧ ∀ x ∈ r.tokens, x.stop ≤ e.position) ∧
    ∀ case e, g.suggest ⟨case, limits⟩ s = .error (.noViableParse e) →
      g.suggest ⟨case, limits⟩ (s ++ t) = .error (.noViableParse e) ∨
        ∃ e', g.suggest ⟨case, limits⟩ (s ++ t) = .error (.lexical e') := by
  have hread := g.tokenizes_tokenizeFrom limits 0 s.toList
  have happend : g.tokenize limits (s ++ t) = g.tokenizeFrom limits 0 (s.toList ++ t.toList) := by
    unfold tokenize
    rw [String.toList_append]
  have hkeeps : ∀ r, g.tokenize limits s = .ok r →
      (∃ r', g.tokenize limits (s ++ t) = .ok r' ∧ r.tokens <+: r'.tokens) ∨
        ∃ e, g.tokenize limits (s ++ t) = .error e ∧ ∀ x ∈ r.tokens, x.stop ≤ e.position := by
    intro r hr
    have hk := hread.keeps_append hr t.toList
    rw [← happend] at hk
    cases hr' : g.tokenize limits (s ++ t) with
    | ok r' =>
      rw [hr'] at hk
      exact Or.inl ⟨r', rfl, hk⟩
    | error e =>
      rw [hr'] at hk
      exact Or.inr ⟨e, rfl, hk.2⟩
  refine ⟨fun e he => ?_, hkeeps, fun case e he => ?_⟩
  · rw [happend]
    exact hread.append_of_error he t.toList
  · obtain ⟨r, hr, hs⟩ := suggest_eq_noViableParse_iff.1 he
    rcases hkeeps r hr with ⟨r', hr', u, hu⟩ | ⟨e', he', -⟩
    · -- the tokens that cannot be read on stand at the front
      refine Or.inl (suggest_eq_noViableParse_iff.2 ⟨r', hr', ?_⟩)
      rw [← hu]
      exact simulateFrom_append_of_error hs u
    · exact Or.inr ⟨e', suggest_eq_lexical_iff.2 he'⟩

/-- A single letter, with any number of spaces around it. -/
def letter : Declarations :=
  { tokens := [⟨"A", .literal "a", false⟩, ⟨"SPACE", .many1 (.literal " "), true⟩]
    rules := [("start", .atom "A")]
    start := some "start" }

/-- The grammar built for a letter. -/
def letterGrammar : Grammar := letter.build.toOption.getD ⟨.empty, .empty, #[], 0⟩

/-- A number sign is an error whatever follows it, the first of two letters stays confirmed, and the second of them is
no phrase whatever follows it. -/
theorem growing_letters :
    (∀ t, ∃ e, letterGrammar.tokenize {} ("a #" ++ t) = .error e ∧ e.position = 2) ∧
      (∀ t, (∃ r, letterGrammar.tokenize {} ("a a" ++ t) = .ok r ∧ [⟨0, "a", 0, 1⟩] <+: r.tokens) ∨
        ∃ e, letterGrammar.tokenize {} ("a a" ++ t) = .error e ∧ 1 ≤ e.position) ∧
      ∀ t, letterGrammar.suggest {} ("a a " ++ t) = .error (.noViableParse ⟨1, "a", "A"⟩) ∨
        ∃ e, letterGrammar.suggest {} ("a a " ++ t) = .error (.lexical e) := by
  have ha : letterGrammar.tokenize {} "a #" = .error ⟨2, "#"⟩ := by cbv
  have hb : letterGrammar.tokenize {} "a a" = .ok ⟨[⟨0, "a", 0, 1⟩], some ⟨"a", 2⟩, ⟨17, 0, 0⟩⟩ := by cbv
  have hc : letterGrammar.suggest {} "a a " = .error (.noViableParse ⟨1, "a", "A"⟩) := by cbv
  refine ⟨fun t => ?_, fun t => ?_, fun t => ?_⟩
  · exact (growing_input letterGrammar {} "a #" t).1 _ ha
  · obtain ⟨-, hkeeps, -⟩ := growing_input letterGrammar {} "a a" t
    rcases hkeeps _ hb with hr | ⟨e, he, hstop⟩
    · exact Or.inl hr
    · exact Or.inr ⟨e, he, hstop _ (List.mem_singleton.2 rfl)⟩
  · exact (growing_input letterGrammar {} "a a " t).2.2 .asIs _ hc

end Typeahead.Grammar
