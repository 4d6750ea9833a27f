import Typeahead.Proofs.Grammar.Language

/-!
# What rule bodies begin with

A form begins with a reference if leftmost expansions bring the reference to its front without yielding a symbol.  A
pattern does so in one of two ways (`Begins.first_or_elsewhere`): the reference is written as the very first item of the
pattern, at whatever depth, or it is reached through another rule or behind items that derive the empty word.
-/

namespace Typeahead

/-- The reference is the very first item of the pattern, or of one of its alternatives. -/
inductive Pattern.First {α ρ : Type} (r : ρ) : Pattern α ρ → Prop where
  | ref : First r (.ref r)
  | seq {p : Pattern α ρ} {ps : List (Pattern α ρ)} (h : First r p) : First r (.seq (p :: ps))
  | alt {p : Pattern α ρ} {ps : List (Pattern α ρ)} (hp : p ∈ ps) (h : First r p) : First r (.alt ps)
  | optional {p : Pattern α ρ} (h : First r p) : First r (.optional p)
  | many {p : Pattern α ρ} (h : First r p) : First r (.many p)
  | many1 {p : Pattern α ρ} (h : First r p) : First r (.many1 p)

namespace RuleSystem

variable {α ρ σ : Type} {G : RuleSystem α ρ σ} {r : ρ} {p : Pattern α ρ} {ps : List (Pattern α ρ)} {F S : Form α ρ}

/-- Leftmost expansions bring the reference to the front of the form before any symbol. -/
def Begins (G : RuleSystem α ρ σ) (F : Form α ρ) (r : ρ) : Prop := ∃ R, G.Yields F [] (.ref r :: R)

/-- The pattern begins with the reference by way of another reference or behind items that derive the empty word. -/
inductive BeginsElsewhere (G : RuleSystem α ρ σ) (r : ρ) : Pattern α ρ → Prop where
  | through {k : ρ} (hk : k ≠ r) (h : G.Begins [.ref k] r) : BeginsElsewhere G r (.ref k)
  | behind {p : Pattern α ρ} {ps : List (Pattern α ρ)} (hp : G.Derives [p] []) (h : G.Begins ps r) :
    BeginsElsewhere G r (.seq (p :: ps))
  | seq {p : Pattern α ρ} {ps : List (Pattern α ρ)} (h : BeginsElsewhere G r p) : BeginsElsewhere G r (.seq (p :: ps))
  | alt {p : Pattern α ρ} {ps : List (Pattern α ρ)} (hp : p ∈ ps) (h : BeginsElsewhere G r p) :
    BeginsElsewhere G r (.alt ps)
  | optional {p : Pattern α ρ} (h : BeginsElsewhere G r p) : BeginsElsewhere G r (.optional p)
  | many {p : Pattern α ρ} (h : BeginsElsewhere G r p) : BeginsElsewhere G r (.many p)
  | many1 {p : Pattern α ρ} (h : BeginsElsewhere G r p) : BeginsElsewhere G r (.many1 p)

/-! ### Forms -/

theorem begins_append_iff : G.Begins (F ++ S) r ↔ G.Begins F r ∨ G.Derives F [] ∧ G.Begins S r := by
  constructor
  · rintro ⟨R, h⟩
    rcases yields_append_cases h with ⟨R', hR, hy⟩ | ⟨u, v, hw, hd, hy⟩
    · cases R' with
      | nil =>
        -- nothing is left of the first part, and the reference stands at the front of the second
        rw [List.nil_append] at hR
        subst hR
        exact Or.inr ⟨hy, R, .refl _⟩
      | cons q R' =>
        rw [List.cons_append] at hR
        cases hR
        exact Or.inl ⟨R', hy⟩
    · obtain ⟨rfl, rfl⟩ := List.append_eq_nil_iff.1 hw.symm
      exact Or.inr ⟨hd, R, hy⟩
  · rintro (⟨R, h⟩ | ⟨hd, R, h⟩)
    · exact ⟨R ++ S, h.append_right S⟩
    · exact ⟨R, (hd.append_right S).trans h⟩

theorem begins_cons_iff : G.Begins (p :: F) r ↔ G.Begins [p] r ∨ G.Derives [p] [] ∧ G.Begins F r :=
  begins_append_iff (F := [p])

theorem not_begins_nil : ¬ G.Begins [] r := by
  rintro ⟨R, h⟩
  cases h

/-- What a reference at the front begins with is begun with, too. -/
theorem Begins.trans {k : ρ} (h : G.Begins F k) (hk : G.Begins [.ref k] r) : G.Begins F r := by
  obtain ⟨R, h⟩ := h
  obtain ⟨R', hk⟩ := hk
  exact ⟨R' ++ R, h.trans (hk.append_right R)⟩

theorem Begins.expand {E : Form α ρ} (h : G.Begins (E ++ F) r) (he : G.Expands p E) : G.Begins (p :: F) r := by
  obtain ⟨R, h⟩ := h
  exact ⟨R, .expand he h⟩

theorem Expands.begins {E : Form α ρ} (he : G.Expands p E) (h : G.Begins E r) : G.Begins [p] r :=
  Begins.expand (by rwa [List.append_nil]) he

/-- A pattern that is no reference begins with what one of its expansions begins with. -/
theorem Begins.exists_expands (h : G.Begins [p] r) : p = .ref r ∨ ∃ E, G.Expands p E ∧ G.Begins E r := by
  obtain ⟨R, h⟩ := h
  cases h with
  | refl => exact Or.inl rfl
  | expand he h =>
    rw [List.append_nil] at h
    exact Or.inr ⟨_, he, R, h⟩

/-! ### The patterns one by one -/

theorem not_begins_empty : ¬ G.Begins [.empty] r := by
  intro h
  rcases h.exists_expands with h | ⟨E, he, h⟩
  · cases h
  · cases he
    exact not_begins_nil h

theorem not_begins_atom {a : α} : ¬ G.Begins [.atom a] r := by
  intro h
  rcases h.exists_expands with h | ⟨E, he, -⟩
  · cases h
  · cases he

theorem begins_ref_iff {k : ρ} : G.Begins [.ref k] r ↔ k = r ∨ ∃ p, G.body? k = some p ∧ G.Begins [p] r := by
  constructor
  · intro h
    rcases h.exists_expands with h | ⟨E, he, h⟩
    · cases h
      exact Or.inl rfl
    · cases he with
      | ref hk => exact Or.inr ⟨_, hk, h⟩
  · rintro (rfl | ⟨p, hk, h⟩)
    · exact ⟨[], .refl _⟩
    · exact (Expands.ref hk).begins h

theorem begins_seq_iff : G.Begins [.seq ps] r ↔ G.Begins ps r := by
  refine ⟨fun h => ?_, Expands.seq.begins⟩
  rcases h.exists_expands with h | ⟨E, he, h⟩
  · cases h
  · cases he
    exact h

theorem begins_alt_iff : G.Begins [.alt ps] r ↔ ∃ p ∈ ps, G.Begins [p] r := by
  constructor
  · intro h
    rcases h.exists_expands with h | ⟨E, he, h⟩
    · cases h
    · cases he with
      | alt hp => exact ⟨_, hp, h⟩
  · rintro ⟨p, hp, h⟩
    exact (Expands.alt hp).begins h

theorem begins_optional_iff : G.Begins [.optional p] r ↔ G.Begins [p] r := by
  refine ⟨fun h => ?_, Expands.take.begins⟩
  rcases h.exists_expands with h | ⟨E, he, h⟩
  · cases h
  · cases he with
    | skip => exact absurd h not_begins_nil
    | take => exact h

private theorem begins_append_many (h : G.Begins (F ++ [.many p]) r) : G.Begins F r ∨ G.Begins [p] r := by
  obtain ⟨R, h⟩ := h
  generalize hF : F ++ [.many p] = F' at h
  generalize hw : ([] : List σ) = w at h
  generalize hR : (.ref r :: R : Form α ρ) = R' at h
  -- `F` is what precedes the repetition; a new round puts its body there
  induction h generalizing F with
  | refl F' =>
    subst hR
    cases F with
    | nil => simp at hF
    | cons q F =>
      obtain ⟨rfl, -⟩ := List.cons.inj hF
      exact Or.inl ⟨F, .refl _⟩
  | emit ha _ _ => cases hw
  | expand he _ ih =>
    cases F with
    | nil =>
      obtain ⟨rfl, rfl⟩ := List.cons.inj hF
      cases he with
      | stop =>
        rename_i h
        subst hR
        cases h
      | again => exact Or.inr ((ih (F := [p]) rfl hw hR).elim id id)
    | cons q F =>
      obtain ⟨rfl, rfl⟩ := List.cons.inj hF
      exact (ih (List.append_assoc ..) hw hR).imp (fun h => h.expand he) id

/-- However many rounds derive the empty word, it is a round that begins with the reference. -/
theorem begins_many_iff : G.Begins [.many p] r ↔ G.Begins [p] r := by
  constructor
  · intro h
    exact (begins_append_many (F := []) h).resolve_left not_begins_nil
  · exact fun h => Expands.again.begins (begins_cons_iff.2 (Or.inl h))

theorem begins_many1_iff : G.Begins [.many1 p] r ↔ G.Begins [p] r := by
  constructor
  · intro h
    rcases h.exists_expands with h | ⟨E, he, h⟩
    · cases h
    · cases he
      rcases begins_cons_iff.1 h with h | ⟨-, h⟩
      · exact h
      · exact begins_many_iff.1 h
  · exact fun h => Expands.many1.begins (begins_cons_iff.2 (Or.inl h))

mutual

/-- There is no third way to begin with a reference. -/
theorem Begins.first_or_elsewhere {p : Pattern α ρ} (h : G.Begins [p] r) : p.First r ∨ G.BeginsElsewhere r p := by
  match p with
  | .empty => exact absurd h not_begins_empty
  | .atom a => exact absurd h not_begins_atom
  | .ref k =>
    by_cases hk : k = r
    · subst hk
      exact Or.inl .ref
    · exact Or.inr (.through hk h)
  | .seq [] => exact absurd (begins_seq_iff.1 h) not_begins_nil
  | .seq (p :: ps) =>
    rcases begins_cons_iff.1 (begins_seq_iff.1 h) with h | ⟨hp, h⟩
    · exact h.first_or_elsewhere.imp .seq .seq
    · exact Or.inr (.behind hp h)
  | .alt ps =>
    obtain ⟨p, hp, h⟩ := begins_alt_iff.1 h
    exact (first_or_elsewhere_of_mem ps hp h).imp (.alt hp) (.alt hp)
  | .optional p => exact (begins_optional_iff.1 h).first_or_elsewhere.imp .optional .optional
  | .many p => exact (begins_many_iff.1 h).first_or_elsewhere.imp .many .many
  | .many1 p => exact (begins_many1_iff.1 h).first_or_elsewhere.imp .many1 .many1

private theorem first_or_elsewhere_of_mem (ps : List (Pattern α ρ)) {p : Pattern α ρ} (hp : p ∈ ps)
    (h : G.Begins [p] r) : p.First r ∨ G.BeginsElsewhere r p := by
  match ps with
  | [] => cases hp
  | q :: ps =>
    rcases List.mem_cons.1 hp with hq | hp
    · rw [hq] at h ⊢
      exact h.first_or_elsewhere
    · exact first_or_elsewhere_of_mem ps hp h

end

/-! ### Comparing two systems -/

/-- A form begins in another system with all that it begins with in this one, if the references do. -/
theorem Begins.of_bodies {G' : RuleSystem α ρ σ}
    (hd : ∀ k p, G.body? k = some p → G'.Derives [p] [] → G'.Derives [.ref k] [])
    (hb : ∀ k p, G.body? k = some p → G'.Begins [p] r → G'.Begins [.ref k] r) (h : G.Begins F r) :
    G'.Begins F r := by
  obtain ⟨R, h⟩ := h
  generalize hw : ([] : List σ) = w at h
  generalize hR : (.ref r :: R : Form α ρ) = R' at h
  induction h with
  | refl F =>
    subst hR
    exact ⟨R, .refl _⟩
  | emit _ _ _ => cases hw
  | expand he _ ih =>
    rcases he.ref_or G' with ⟨k, q, rfl, rfl, hk⟩ | he
    · rcases begins_append_iff.1 (ih hw hR) with h | ⟨hq, h⟩
      · exact begins_cons_iff.2 (Or.inl (hb k q hk h))
      · exact begins_cons_iff.2 (Or.inr ⟨hd k q hk hq, h⟩)
    · exact (ih hw hR).expand he

/-- Related patterns begin with related references, if only references are related to references. -/
theorem Simulates.exists_begins {β κ : Type} {H : RuleSystem β κ σ} {S : Pattern α ρ → Pattern β κ → Prop}
    {B : ρ → κ → Prop} (hS : Simulates G H S) (href : ∀ r q, S (.ref r) q → ∃ k, q = .ref k ∧ B r k)
    {q : Pattern β κ} (hpq : S p q) (h : G.Begins [p] r) : ∃ k, B r k ∧ H.Begins [q] k := by
  obtain ⟨R, h⟩ := h
  obtain ⟨R', h, hR⟩ := hS.yields h (.cons hpq .nil)
  obtain ⟨q', R', hq', -, rfl⟩ := List.forall₂_cons_left_iff.1 hR
  obtain ⟨k, rfl, hk⟩ := href r q' hq'
  exact ⟨k, hk, R', h⟩

end RuleSystem

end Typeahead
