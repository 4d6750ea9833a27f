import Mathlib.Data.List.Basic
import Typeahead.Proofs.Completion.MaximalMunch
import Typeahead.Proofs.Completion.Reading
import Typeahead.Proofs.Grammar.Residuals

/-!
# Closed words

A word is closed by a character if no token goes on from it to this character (`Declarations.Closes`).  In front of the
character it is the longest match, and no token reaches the end of the text, so it is confirmed, whatever the text goes
on with (`Closes.tokenizeFrom_eq`).  Whether a word is closed can be found out by reading it, if the tokens refer to no
fragments (`closes_iff`).
-/

namespace Typeahead

namespace Grammar

variable {d : Declarations} {g : Grammar} {limits : Limits} {cs : List Char} {munch : Munch}

/-- A scan that is not cut short finds the longest match. -/
theorem best_of_munches (h : d.Built g) (hz : (g.scan limits cs).stats.Complete)
    (hm : d.Munches cs munch.kind (munch.extra + 1)) : (g.scan limits cs).best = some munch := by
  obtain ⟨hfound, -⟩ := scan_exact h hz
  cases hb : (g.scan limits cs).best with
  | none =>
    rw [hb] at hfound
    exact absurd hm.1 (hfound _ _)
  | some munch' =>
    rw [hb] at hfound
    obtain ⟨hkind, hextra⟩ := Declarations.Munches.unique hfound hm
    obtain ⟨kind, extra⟩ := munch'
    rw [show kind = munch.kind from hkind, show extra = munch.extra from Nat.succ.inj hextra]

/-- The longest match is confirmed if more follows and no token can go on at the end of the text. -/
theorem Confirms.of_munches (h : d.Built g) (hz : (g.scan limits cs).stats.Complete)
    (hm : d.Munches cs munch.kind (munch.extra + 1)) (hlt : munch.extra + 1 < cs.length) (hl : ¬ d.Live cs) :
    g.Confirms limits cs munch :=
  ⟨best_of_munches h hz hm, Bool.eq_false_iff.2 fun hlive => hl ((scan_exact h hz).2.1 hlive), hlt⟩

end Grammar

namespace Declarations

/-- The text is one of the token and of no token before it, and no token goes on from it to the character. -/
structure Closes (d : Declarations) (kind : TokenKind) (u : List Char) (x : Char) : Prop where
  nonempty : u ≠ []
  spells : d.Spells kind u
  lowest : ∀ kind', d.Spells kind' u → kind ≤ kind'
  closed : ∀ t ∈ d.tokens, ¬ d.lexicalSystem.Viable [t.body] (u ++ [x])

/-- Whether a word is closed, found out by reading it. -/
def closes (d : Declarations) (kind : TokenKind) (u : List Char) (x : Char) : Bool :=
  !u.isEmpty &&
    d.tokens.findIdx? (fun t => (d.lexicalSystem.residuals u [t.body]).any Pattern.allNullable) == some kind &&
    d.tokens.all fun t => (d.lexicalSystem.residuals (u ++ [x]) [t.body]).isEmpty

variable {d : Declarations} {g : Grammar} {limits : Limits} {kind : TokenKind} {u cs : List Char} {x : Char}

theorem Live.viable (h : d.Live cs) : ∃ t ∈ d.tokens, d.lexicalSystem.Viable [t.body] cs := by
  obtain ⟨t, ht, a, R, hy⟩ := h
  exact ⟨t, ht, _, hy⟩

/-- Without references in the tokens, reading tells whether a word is closed. -/
theorem closes_iff (hfree : ∀ t ∈ d.tokens, t.body.refFree = true) :
    d.closes kind u x = true ↔ d.Closes kind u x := by
  have hforms : ∀ t ∈ d.tokens, Pattern.allRefFree [t.body] = true := by
    intro t ht
    rw [Pattern.allRefFree_singleton, hfree t ht]
  have hviable : ∀ t ∈ d.tokens, ((d.lexicalSystem.residuals (u ++ [x]) [t.body]).isEmpty = true ↔
      ¬ d.lexicalSystem.Viable [t.body] (u ++ [x])) := by
    intro t ht
    rw [RuleSystem.viable_iff_residuals (hforms t ht), not_not, List.isEmpty_iff]
  have hderives : ∀ t ∈ d.tokens, ((d.lexicalSystem.residuals u [t.body]).any Pattern.allNullable = true ↔
      d.lexicalSystem.Derives [t.body] u) := by
    intro t ht
    rw [RuleSystem.derives_iff_residuals (hforms t ht), List.any_eq_true]
  unfold closes
  rw [Bool.and_eq_true, Bool.and_eq_true, Bool.not_eq_true', List.isEmpty_eq_false_iff, beq_iff_eq,
    List.findIdx?_eq_some_iff_getElem, List.all_eq_true]
  constructor
  · rintro ⟨⟨hne, hlt, hd, hbefore⟩, hall⟩
    refine ⟨hne, ⟨_, List.getElem?_eq_getElem hlt, (hderives _ (List.getElem_mem hlt)).1 hd⟩, ?_,
      fun t ht => (hviable t ht).1 (hall t ht)⟩
    rintro kind' ⟨t, hk, hd'⟩
    by_contra hle
    obtain ⟨hlt', rfl⟩ := List.getElem?_eq_some_iff.1 hk
    exact hbefore kind' (Nat.lt_of_not_le hle) ((hderives _ (List.getElem_mem hlt')).2 hd')
  · rintro ⟨hne, ⟨t, hk, hd⟩, hlowest, hclosed⟩
    obtain ⟨hlt, rfl⟩ := List.getElem?_eq_some_iff.1 hk
    refine ⟨⟨hne, hlt, (hderives _ (List.getElem_mem hlt)).2 hd, fun j hj hd' => ?_⟩,
      fun t ht => (hviable t ht).2 (hclosed t ht)⟩
    have hlt' : j < d.tokens.length := Nat.lt_trans hj hlt
    have hspells : d.Spells j u :=
      ⟨_, List.getElem?_eq_getElem hlt', (hderives _ (List.getElem_mem hlt')).1 hd'⟩
    exact Nat.not_le.2 hj (hlowest j hspells)

/-- A closed word is the longest match in itself. -/
theorem Closes.munches_self (h : d.Closes kind u x) : d.Munches u kind u.length := by
  refine ⟨⟨List.length_pos_iff.2 h.nonempty, Nat.le_refl _, by rw [List.take_length]; exact h.spells⟩, ?_⟩
  rintro kind' n' ⟨-, hle, hspells⟩
  rcases Nat.lt_or_eq_of_le hle with hlt | rfl
  · exact Or.inl hlt
  · rw [List.take_length] at hspells
    exact Or.inr ⟨rfl, h.lowest kind' hspells⟩

/-- In front of the character that closes it, a word is the longest match, and no token reaches the end of the text. -/
theorem Closes.munches (h : d.Closes kind u x) (rest : List Char) :
    d.Munches (u ++ x :: rest) kind u.length ∧ ¬ d.Live (u ++ x :: rest) := by
  have hdead : ∀ v, ∀ t ∈ d.tokens, ¬ d.lexicalSystem.Viable [t.body] (u ++ x :: v) := by
    intro v t ht hv
    rw [List.append_cons] at hv
    exact h.closed t ht hv.of_append
  obtain ⟨hmatch, hbest⟩ := h.munches_self
  refine ⟨⟨matches_append_iff.2 (Or.inl hmatch), fun kind' n' hm => ?_⟩, fun hl => ?_⟩
  · rcases matches_append_iff.1 hm with hm | ⟨hlt, -, hspells⟩
    · exact hbest kind' n' hm
    · obtain ⟨k, hk⟩ : ∃ k, n' - u.length = k + 1 := ⟨n' - u.length - 1, by omega⟩
      rw [hk, List.take_succ_cons] at hspells
      obtain ⟨t, ht, hv⟩ := hspells.viable
      exact absurd hv (hdead _ t ht)
  · obtain ⟨t, ht, hv⟩ := hl.viable
    exact hdead _ t ht hv

/-- A closed word is confirmed, whatever the text goes on with. -/
theorem Closes.tokenizeFrom_eq (h : d.Closes kind u x) (hg : d.Built g)
    (hz : ∀ cs, (g.scan limits cs).stats.Complete) (rest : List Char) (position : Nat) :
    ∃ stats, g.tokenizeFrom limits position (u ++ x :: rest) =
      (g.tokenizeFrom limits (position + byteLength u) (x :: rest)).map fun following =>
        { following with
          tokens := if g.skips kind then following.tokens
            else ⟨kind, .ofList u, position, position + byteLength u⟩ :: following.tokens
          stats := stats + following.stats } := by
  obtain ⟨extra, hextra⟩ : ∃ extra, u.length = extra + 1 :=
    Nat.exists_eq_succ_of_ne_zero fun hzero => h.nonempty (List.eq_nil_of_length_eq_zero hzero)
  obtain ⟨hm, hl⟩ := h.munches rest
  have htake : (u ++ x :: rest).take (extra + 1) = u := by rw [← hextra, List.take_left]
  rw [hextra] at hm
  have hc : g.Confirms limits (u ++ x :: rest) ⟨kind, extra⟩ := by
    refine .of_munches hg (hz _) hm ?_ hl
    rw [List.length_append, hextra, List.length_cons]
    exact Nat.lt_add_of_pos_right (Nat.succ_pos _)
  refine ⟨(g.scan limits (u ++ x :: rest)).stats, ?_⟩
  rw [hc.tokenizeFrom_eq, htake, ← hextra, List.drop_left]
  unfold Grammar.withMatch Grammar.tokenOf
  rw [htake]

end Declarations

end Typeahead
