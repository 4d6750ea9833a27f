import Typeahead.Proofs.Grammar.Language

/-!
# Reading patterns without references

A pattern without references can be read symbol by symbol: the heads of a form are the atoms that leftmost expansions
bring to its front, each with the form behind it (`yields_atom_iff_mem_heads`), and crossing the heads that accept a
symbol leaves the residual forms.  So it is decidable which words such a form derives and which words it begins
(`derives_iff_residuals`, `viable_iff_residuals`).
-/

namespace Typeahead

namespace Pattern

variable {α ρ : Type}

mutual

/-- The pattern refers to no rule. -/
def refFree : Pattern α ρ → Bool
  | .empty => true
  | .atom _ => true
  | .ref _ => false
  | .seq ps => allRefFree ps
  | .alt ps => allRefFree ps
  | .optional p => refFree p
  | .many p => refFree p
  | .many1 p => refFree p

/-- The patterns refer to no rule. -/
def allRefFree : List (Pattern α ρ) → Bool
  | [] => true
  | p :: ps => refFree p && allRefFree ps

end

mutual

/-- The pattern derives the empty word without looking at rules. -/
def nullable : Pattern α ρ → Bool
  | .empty => true
  | .atom _ => false
  | .ref _ => false
  | .seq ps => allNullable ps
  | .alt ps => anyNullable ps
  | .optional _ => true
  | .many _ => true
  | .many1 p => nullable p

/-- All of the patterns derive the empty word. -/
def allNullable : List (Pattern α ρ) → Bool
  | [] => true
  | p :: ps => nullable p && allNullable ps

/-- One of the patterns derives the empty word. -/
def anyNullable : List (Pattern α ρ) → Bool
  | [] => false
  | p :: ps => nullable p || anyNullable ps

end

mutual

/-- The atoms that can come first, each with what then stands behind it. -/
def heads : Pattern α ρ → List (α × List (Pattern α ρ))
  | .empty => []
  | .atom a => [(a, [])]
  | .ref _ => []
  | .seq ps => headsOfSequence ps
  | .alt ps => headsOfAlternatives ps
  | .optional p => heads p
  | .many p => (heads p).map fun (a, F) => (a, F ++ [.many p])
  | .many1 p => (heads p).map fun (a, F) => (a, F ++ [.many p])

/-- The heads of patterns one behind the other. -/
def headsOfSequence : List (Pattern α ρ) → List (α × List (Pattern α ρ))
  | [] => []
  | p :: ps => (heads p).map (fun (a, F) => (a, F ++ ps)) ++ if nullable p then headsOfSequence ps else []

/-- The heads of any of the patterns. -/
def headsOfAlternatives : List (Pattern α ρ) → List (α × List (Pattern α ρ))
  | [] => []
  | p :: ps => heads p ++ headsOfAlternatives ps

end

variable {p : Pattern α ρ} {ps qs : List (Pattern α ρ)} {a : α} {E : List (Pattern α ρ)}

@[simp] theorem allRefFree_singleton : allRefFree [p] = p.refFree := by
  rw [allRefFree, allRefFree, Bool.and_true]

theorem allRefFree_append : allRefFree (ps ++ qs) = (allRefFree ps && allRefFree qs) := by
  induction ps with
  | nil => simp [allRefFree]
  | cons p ps ih => simp [allRefFree, ih, Bool.and_assoc]

theorem refFree_of_mem (h : allRefFree ps = true) (hp : p ∈ ps) : p.refFree = true := by
  induction ps with
  | nil => cases hp
  | cons q ps ih =>
    rw [allRefFree, Bool.and_eq_true] at h
    rcases List.mem_cons.1 hp with rfl | hp
    · exact h.1
    · exact ih h.2 hp

theorem allNullable_append : allNullable (ps ++ qs) = (allNullable ps && allNullable qs) := by
  induction ps with
  | nil => simp [allNullable]
  | cons p ps ih => simp [allNullable, ih, Bool.and_assoc]

theorem anyNullable_iff : anyNullable ps = true ↔ ∃ p ∈ ps, p.nullable = true := by
  induction ps with
  | nil => simp [anyNullable]
  | cons p ps ih => rw [anyNullable, Bool.or_eq_true, ih, List.exists_mem_cons_iff]

theorem mem_headsOfSequence_cons :
    (a, E) ∈ headsOfSequence (p :: ps) ↔
      (∃ F, (a, F) ∈ heads p ∧ F ++ ps = E) ∨ p.nullable = true ∧ (a, E) ∈ headsOfSequence ps := by
  rw [headsOfSequence, List.mem_append, List.mem_map]
  refine or_congr ⟨?_, ?_⟩ ?_
  · rintro ⟨⟨b, F⟩, hF, he⟩
    cases he
    exact ⟨F, hF, rfl⟩
  · rintro ⟨F, hF, rfl⟩
    exact ⟨(a, F), hF, rfl⟩
  · split <;> simp_all

theorem mem_headsOfSequence_append :
    (a, E) ∈ headsOfSequence (ps ++ qs) ↔
      (∃ F, (a, F) ∈ headsOfSequence ps ∧ F ++ qs = E) ∨ allNullable ps = true ∧ (a, E) ∈ headsOfSequence qs := by
  induction ps generalizing E with
  | nil => simp [headsOfSequence, allNullable]
  | cons p ps ih =>
    rw [List.cons_append, mem_headsOfSequence_cons, ih]
    simp only [mem_headsOfSequence_cons, allNullable, Bool.and_eq_true]
    constructor
    · rintro (⟨F, hF, rfl⟩ | ⟨hp, ⟨F, hF, rfl⟩ | ⟨hps, hE⟩⟩)
      · exact Or.inl ⟨F ++ ps, Or.inl ⟨F, hF, rfl⟩, List.append_assoc ..⟩
      · exact Or.inl ⟨F, Or.inr ⟨hp, hF⟩, rfl⟩
      · exact Or.inr ⟨⟨hp, hps⟩, hE⟩
    · rintro (⟨_, ⟨F, hF, rfl⟩ | ⟨hp, hF⟩, rfl⟩ | ⟨⟨hp, hps⟩, hE⟩)
      · exact Or.inl ⟨F, hF, (List.append_assoc ..).symm⟩
      · exact Or.inr ⟨hp, Or.inl ⟨_, hF, rfl⟩⟩
      · exact Or.inr ⟨hp, Or.inr ⟨hps, hE⟩⟩

theorem mem_headsOfAlternatives : (a, E) ∈ headsOfAlternatives ps ↔ ∃ p ∈ ps, (a, E) ∈ heads p := by
  induction ps with
  | nil => simp [headsOfAlternatives]
  | cons p ps ih => rw [headsOfAlternatives, List.mem_append, ih, List.exists_mem_cons_iff]

theorem mem_heads_many : (a, E) ∈ heads (.many p) ↔ ∃ F, (a, F) ∈ heads p ∧ F ++ [.many p] = E := by
  rw [heads, List.mem_map]
  constructor
  · rintro ⟨⟨b, F⟩, hF, he⟩
    cases he
    exact ⟨F, hF, rfl⟩
  · rintro ⟨F, hF, rfl⟩
    exact ⟨(a, F), hF, rfl⟩

end Pattern

namespace RuleSystem

open Pattern

variable {α ρ σ : Type} {G : RuleSystem α ρ σ} {p : Pattern α ρ} {F E R : Form α ρ} {a : α} {x : σ} {w : List σ}

/-! ### Expanding without references -/

theorem Expands.refFree (h : G.Expands p E) (hp : p.refFree = true) : allRefFree E = true := by
  cases h with
  | empty | skip | stop => rfl
  | ref => cases hp
  | seq => exact hp
  | alt hmem =>
    rw [allRefFree, refFree_of_mem hp hmem]
    rfl
  | take =>
    rw [Pattern.refFree] at hp
    simp only [allRefFree, hp, Bool.and_self]
  | again =>
    rw [Pattern.refFree] at hp
    simp only [allRefFree, Pattern.refFree, hp, Bool.and_self]
  | many1 =>
    rw [Pattern.refFree] at hp
    simp only [allRefFree, Pattern.refFree, hp, Bool.and_self]

theorem Yields.refFree (h : G.Yields F w R) (hF : allRefFree F = true) : allRefFree R = true := by
  induction h with
  | refl => exact hF
  | expand he _ ih =>
    rw [allRefFree, Bool.and_eq_true] at hF
    refine ih ?_
    rw [allRefFree_append, he.refFree hF.1, hF.2]
    rfl
  | emit _ _ ih =>
    rw [allRefFree, Bool.and_eq_true] at hF
    exact ih hF.2

/-- An expansion derives the empty word only if the pattern does. -/
private theorem Expands.nullable (h : G.Expands p E) (hp : p.refFree = true) (hE : allNullable E = true) :
    p.nullable = true := by
  cases h with
  | ref => cases hp
  | seq => exact hE
  | alt hmem =>
    rw [allNullable, Bool.and_eq_true] at hE
    exact anyNullable_iff.2 ⟨_, hmem, hE.1⟩
  | many1 =>
    rw [allNullable, Bool.and_eq_true] at hE
    exact hE.1
  | empty | skip | take | stop | again => rfl

/-- The heads of an expansion are heads of the pattern. -/
private theorem Expands.heads_subset (h : G.Expands p E) (hp : p.refFree = true)
    (hE : (a, R) ∈ headsOfSequence (E ++ F)) : (a, R) ∈ headsOfSequence (p :: F) := by
  rw [mem_headsOfSequence_cons]
  cases h with
  | ref => cases hp
  | empty | skip | stop => exact Or.inr ⟨rfl, hE⟩
  | seq => exact mem_headsOfSequence_append.1 hE
  | alt hmem =>
    rcases mem_headsOfSequence_cons.1 hE with ⟨F', hF', rfl⟩ | ⟨hn, hR⟩
    · exact Or.inl ⟨F', mem_headsOfAlternatives.2 ⟨_, hmem, hF'⟩, rfl⟩
    · exact Or.inr ⟨anyNullable_iff.2 ⟨_, hmem, hn⟩, hR⟩
  | take =>
    rcases mem_headsOfSequence_cons.1 hE with ⟨F', hF', rfl⟩ | ⟨-, hR⟩
    · exact Or.inl ⟨F', hF', rfl⟩
    · exact Or.inr ⟨rfl, hR⟩
  | again =>
    rcases mem_headsOfSequence_cons.1 hE with ⟨F', hF', rfl⟩ | ⟨-, hR⟩
    · exact Or.inl ⟨_, mem_heads_many.2 ⟨F', hF', rfl⟩, List.append_assoc ..⟩
    · exact mem_headsOfSequence_cons.1 hR
  | many1 =>
    rcases mem_headsOfSequence_cons.1 hE with ⟨F', hF', rfl⟩ | ⟨hn, hR⟩
    · exact Or.inl ⟨_, mem_heads_many.2 ⟨F', hF', rfl⟩, List.append_assoc ..⟩
    · rcases mem_headsOfSequence_cons.1 hR with ⟨F', hF', rfl⟩ | ⟨-, hR⟩
      · exact Or.inl ⟨F', hF', rfl⟩
      · exact Or.inr ⟨hn, hR⟩

mutual

theorem derives_nil_of_nullable (p : Pattern α ρ) (h : p.nullable = true) : G.Derives [p] [] := by
  match p with
  | .empty => exact Expands.empty.derives (.refl [])
  | .atom a => cases h
  | .ref r => cases h
  | .seq ps => exact Expands.seq.derives (derives_nil_of_allNullable ps h)
  | .alt ps => exact derives_alt_iff.2 (exists_derives_nil_of_anyNullable ps h)
  | .optional p => exact Expands.skip.derives (.refl [])
  | .many p => exact Expands.stop.derives (.refl [])
  | .many1 p =>
    have hmany : G.Derives [.many p] [] := Expands.stop.derives (.refl [])
    exact Expands.many1.derives (derives_cons_iff.2 ⟨[], [], rfl, derives_nil_of_nullable p h, hmany⟩)

theorem derives_nil_of_allNullable (ps : List (Pattern α ρ)) (h : allNullable ps = true) : G.Derives ps [] := by
  match ps with
  | [] => exact .refl []
  | p :: ps =>
    rw [allNullable, Bool.and_eq_true] at h
    exact derives_cons_iff.2 ⟨[], [], rfl, derives_nil_of_nullable p h.1, derives_nil_of_allNullable ps h.2⟩

private theorem exists_derives_nil_of_anyNullable (ps : List (Pattern α ρ)) (h : anyNullable ps = true) :
    ∃ p ∈ ps, G.Derives [p] [] := by
  match ps with
  | [] => cases h
  | p :: ps =>
    rcases Bool.or_eq_true_iff.1 h with h | h
    · exact ⟨p, List.mem_cons_self .., derives_nil_of_nullable p h⟩
    · obtain ⟨q, hq, hd⟩ := exists_derives_nil_of_anyNullable ps h
      exact ⟨q, List.mem_cons_of_mem _ hq, hd⟩

end

theorem derives_nil_iff_allNullable (hF : allRefFree F = true) : G.Derives F [] ↔ allNullable F = true := by
  refine ⟨fun h => ?_, derives_nil_of_allNullable F⟩
  unfold Derives at h
  generalize hR : ([] : Form α ρ) = R at h
  generalize hw : ([] : List σ) = w at h
  induction h with
  | refl =>
    subst hR
    rfl
  | emit _ _ _ => cases hw
  | expand he _ ih =>
    rw [allRefFree, Bool.and_eq_true] at hF
    have hE := he.refFree hF.1
    have hn := ih (by rw [allRefFree_append, hE, hF.2]; rfl) hR hw
    rw [allNullable_append, Bool.and_eq_true] at hn
    rw [allNullable, he.nullable hF.1 hn.1, hn.2]
    rfl

mutual

private theorem yields_of_mem_heads (p : Pattern α ρ) {E : Form α ρ} (h : (a, E) ∈ heads p) :
    G.Yields [p] [] (.atom a :: E) := by
  match p with
  | .empty => cases h
  | .atom b =>
    cases List.mem_singleton.1 h
    exact .refl _
  | .ref r => cases h
  | .seq ps => exact Expands.seq.yields.trans (yields_of_mem_headsOfSequence ps h)
  | .alt ps =>
    obtain ⟨p, hp, hy⟩ := exists_yields_of_mem_headsOfAlternatives ps h
    exact (Expands.alt hp).yields.trans hy
  | .optional p => exact Expands.take.yields.trans (yields_of_mem_heads p h)
  | .many p =>
    obtain ⟨F, hF, rfl⟩ := mem_heads_many.1 h
    exact Expands.again.yields.trans ((yields_of_mem_heads p hF).append_right [.many p])
  | .many1 p =>
    obtain ⟨F, hF, rfl⟩ := mem_heads_many.1 h
    exact Expands.many1.yields.trans ((yields_of_mem_heads p hF).append_right [.many p])

private theorem yields_of_mem_headsOfSequence (ps : List (Pattern α ρ)) {E : Form α ρ}
    (h : (a, E) ∈ headsOfSequence ps) : G.Yields ps [] (.atom a :: E) := by
  match ps with
  | [] => cases h
  | p :: ps =>
    rcases mem_headsOfSequence_cons.1 h with ⟨F, hF, rfl⟩ | ⟨hn, hE⟩
    · exact (yields_of_mem_heads p hF).append_right ps
    · exact ((derives_nil_of_nullable p hn).append_right ps).trans (yields_of_mem_headsOfSequence ps hE)

private theorem exists_yields_of_mem_headsOfAlternatives (ps : List (Pattern α ρ)) {E : Form α ρ}
    (h : (a, E) ∈ headsOfAlternatives ps) : ∃ p ∈ ps, G.Yields [p] [] (.atom a :: E) := by
  match ps with
  | [] => cases h
  | p :: ps =>
    rcases List.mem_append.1 h with h | h
    · exact ⟨p, List.mem_cons_self .., yields_of_mem_heads p h⟩
    · obtain ⟨q, hq, hy⟩ := exists_yields_of_mem_headsOfAlternatives ps h
      exact ⟨q, List.mem_cons_of_mem _ hq, hy⟩

end

/-- The heads of a form are the atoms that expansions bring to its front. -/
theorem yields_atom_iff_mem_heads (hF : allRefFree F = true) :
    G.Yields F [] (.atom a :: E) ↔ (a, E) ∈ headsOfSequence F := by
  refine ⟨fun h => ?_, yields_of_mem_headsOfSequence F⟩
  generalize hR : (.atom a :: E : Form α ρ) = R at h
  generalize hw : ([] : List σ) = w at h
  induction h with
  | refl =>
    subst hR
    exact mem_headsOfSequence_cons.2 (Or.inl ⟨[], List.mem_singleton.2 rfl, rfl⟩)
  | emit _ _ _ => cases hw
  | expand he _ ih =>
    rw [allRefFree, Bool.and_eq_true] at hF
    exact he.heads_subset hF.1 (ih (by rw [allRefFree_append, he.refFree hF.1, hF.2]; rfl) hR hw)

/-! ### Reading symbol by symbol -/

/-- A word is read by reading its first symbol first. -/
theorem yields_cons_word_iff :
    G.Yields F (x :: w) R ↔ ∃ a E, G.Yields F [] (.atom a :: E) ∧ G.accepts a x ∧ G.Yields E w R := by
  constructor
  · intro h
    generalize hw : x :: w = w' at h
    induction h with
    | refl => cases hw
    | emit ha h _ =>
      cases hw
      exact ⟨_, _, .refl _, ha, h⟩
    | expand he _ ih =>
      obtain ⟨a, E, hE, ha, h⟩ := ih hw
      exact ⟨a, E, .expand he hE, ha, h⟩
  · rintro ⟨a, E, hE, ha, h⟩
    exact hE.trans (.emit ha h)

/-! ### Runs of one atom -/

/-- All symbols of a run are accepted by its atom. -/
theorem accepts_of_viable_many {b : α} (h : G.Viable [.many (.atom b)] w) : ∀ x ∈ w, G.accepts b x := by
  induction w with
  | nil => exact fun x hx => absurd hx List.not_mem_nil
  | cons x w ih =>
    obtain ⟨R, h⟩ := h
    obtain ⟨a, E, hE, hx, h⟩ := yields_cons_word_iff.1 h
    rw [yields_atom_iff_mem_heads rfl] at hE
    cases List.mem_singleton.1 hE
    exact List.forall_mem_cons.2 ⟨hx, ih ⟨R, h⟩⟩

theorem accepts_of_viable_many1 {b : α} (h : G.Viable [.many1 (.atom b)] w) : ∀ x ∈ w, G.accepts b x := by
  rcases h.exists_expands (by simp) with rfl | ⟨E, he, h⟩
  · exact fun x hx => absurd hx List.not_mem_nil
  · cases he
    exact accepts_of_viable_many (Expands.again.viable h)

/-- A single symbol is a run. -/
theorem derives_many1_singleton {b : α} (hx : G.accepts b x) : G.Derives [.many1 (.atom b)] [x] := by
  have hstop : G.Derives [.many (.atom b)] [] := Expands.stop.derives (.refl [])
  exact Expands.many1.derives (.emit hx hstop)

/-! ### Residual forms -/

variable [∀ a x, Decidable (G.accepts a x)]

/-- The forms that remain when a word has been read. -/
def residuals (G : RuleSystem α ρ σ) [∀ a x, Decidable (G.accepts a x)] : List σ → Form α ρ → List (Form α ρ)
  | [], F => [F]
  | x :: w, F => (headsOfSequence F).flatMap fun (a, E) => if G.accepts a x then residuals G w E else []

/-- Whatever a form yields, one of its residuals goes on to. -/
theorem exists_mem_residuals_iff (hF : allRefFree F = true) :
    (∃ E ∈ G.residuals w F, G.Yields E [] R) ↔ G.Yields F w R := by
  induction w generalizing F with
  | nil => simp [residuals]
  | cons x w ih =>
    have hmem : ∀ E, E ∈ G.residuals (x :: w) F ↔
        ∃ a E', (a, E') ∈ headsOfSequence F ∧ G.accepts a x ∧ E ∈ G.residuals w E' := by
      intro E
      rw [residuals, List.mem_flatMap]
      constructor
      · rintro ⟨⟨a, E'⟩, ha, hE⟩
        by_cases hx : G.accepts a x
        · exact ⟨a, E', ha, hx, by simpa only [if_pos hx] using hE⟩
        · simp only [if_neg hx, List.not_mem_nil] at hE
      · rintro ⟨a, E', ha, hx, hE⟩
        exact ⟨(a, E'), ha, by simpa only [if_pos hx] using hE⟩
    have htail : ∀ {a E'}, G.Yields F [] (.atom a :: E') → allRefFree E' = true := fun hy => hy.refFree hF
    rw [yields_cons_word_iff]
    constructor
    · rintro ⟨E, hE, hR⟩
      obtain ⟨a, E', ha, hx, hE⟩ := (hmem E).1 hE
      have hy := (yields_atom_iff_mem_heads (G := G) hF).2 ha
      exact ⟨a, E', hy, hx, (ih (htail hy)).1 ⟨E, hE, hR⟩⟩
    · rintro ⟨a, E', hy, hx, h⟩
      obtain ⟨E, hE, hR⟩ := (ih (htail hy)).2 h
      exact ⟨E, (hmem E).2 ⟨a, E', (yields_atom_iff_mem_heads hF).1 hy, hx, hE⟩, hR⟩

/-- A residual of a form without references has no references. -/
private theorem refFree_of_mem_residuals (hF : allRefFree F = true) (hE : E ∈ G.residuals w F) :
    allRefFree E = true :=
  ((exists_mem_residuals_iff hF).1 ⟨E, hE, .refl E⟩).refFree hF

theorem viable_iff_residuals (hF : allRefFree F = true) : G.Viable F w ↔ G.residuals w F ≠ [] := by
  rw [← List.length_pos_iff, List.length_pos_iff_exists_mem]
  constructor
  · rintro ⟨R, h⟩
    obtain ⟨E, hE, -⟩ := (exists_mem_residuals_iff hF).2 h
    exact ⟨E, hE⟩
  · rintro ⟨E, hE⟩
    exact ⟨E, (exists_mem_residuals_iff hF).1 ⟨E, hE, .refl E⟩⟩

theorem derives_iff_residuals (hF : allRefFree F = true) :
    G.Derives F w ↔ ∃ E ∈ G.residuals w F, allNullable E = true := by
  unfold Derives
  rw [← exists_mem_residuals_iff hF]
  refine exists_congr fun E => and_congr_right fun hE => ?_
  exact derives_nil_iff_allNullable (refFree_of_mem_residuals hF hE)

end RuleSystem

end Typeahead
