import Typeahead.Proofs.Grammar.Beginnings

/-!
# Left recursion as a loop

`Pattern.withoutLeftRecursion?` turns `a: a X | B` into `a: B X*`.  A reference to `a` then derives the same words
and begins the same words as before: in the old rule every leftmost expansion puts suffixes `X` behind each other
and ends with a base `B`, and read from the left this is one round of the loop for each suffix
(`TurnsIntoLoops.derives_iff`, `TurnsIntoLoops.viable_iff`).  This holds in any system of rules, whether or not the
parts derive the empty word or mention `a` again.
-/

namespace Typeahead

namespace RuleSystem

variable {α ρ σ : Type} {G : RuleSystem α ρ σ}

/-! ### Repetitions -/

private theorem exists_rounds {p : Pattern α ρ} {F F' R : Form α ρ} {w : List σ} (h : G.Yields F' w R)
    (hF : F ++ [.many p] = F') (hR : R = []) :
    ∃ (u : List σ) (ws : List (List σ)), w = u ++ ws.flatten ∧ G.Derives F u ∧ ∀ x ∈ ws, G.Derives [p] x := by
  -- `F` is what precedes the repetition; a new round puts its body there
  induction h generalizing F with
  | refl F' =>
    subst hR
    simp at hF
  | emit ha h ih =>
    cases F with
    | nil => simp at hF
    | cons q F =>
      obtain ⟨rfl, rfl⟩ := List.cons.inj hF
      obtain ⟨u, ws, rfl, hu, hws⟩ := ih rfl hR
      exact ⟨_ :: u, ws, rfl, .emit ha hu, hws⟩
  | expand he h ih =>
    cases F with
    | cons q F =>
      obtain ⟨rfl, rfl⟩ := List.cons.inj hF
      obtain ⟨u, ws, rfl, hu, hws⟩ := ih (List.append_assoc ..) hR
      exact ⟨u, ws, rfl, .expand he hu, hws⟩
    | nil =>
      obtain ⟨rfl, rfl⟩ := List.cons.inj hF
      cases he with
      | stop =>
        cases h
        exact ⟨[], [], rfl, .refl [], by simp⟩
      | again =>
        obtain ⟨u, ws, rfl, hu, hws⟩ := ih (F := [p]) rfl hR
        exact ⟨[], u :: ws, rfl, .refl [], List.forall_mem_cons.2 ⟨hu, hws⟩⟩

/-- A repetition derives what its rounds derive one after the other. -/
theorem derives_many_iff {p : Pattern α ρ} {w : List σ} :
    G.Derives [.many p] w ↔ ∃ ws : List (List σ), w = ws.flatten ∧ ∀ x ∈ ws, G.Derives [p] x := by
  constructor
  · intro h
    obtain ⟨u, ws, rfl, hu, hws⟩ := exists_rounds (F := []) h rfl rfl
    cases hu
    exact ⟨ws, rfl, hws⟩
  · rintro ⟨ws, rfl, hws⟩
    induction ws with
    | nil => exact Expands.stop.derives (.refl [])
    | cons x ws ih =>
      obtain ⟨hx, hws⟩ := List.forall_mem_cons.1 hws
      exact Expands.again.derives (derives_cons_iff.2 ⟨x, ws.flatten, rfl, hx, ih hws⟩)

/-- One more round at the end. -/
private theorem Derives.many_concat {p : Pattern α ρ} {u v : List σ} (hu : G.Derives [.many p] u)
    (hv : G.Derives [p] v) : G.Derives [.many p] (u ++ v) := by
  obtain ⟨ws, rfl, hws⟩ := derives_many_iff.1 hu
  refine derives_many_iff.2 ⟨ws ++ [v], by simp, ?_⟩
  intro x hx
  rcases List.mem_append.1 hx with hx | hx
  · exact hws x hx
  · rw [List.mem_singleton.1 hx]
    exact hv

private theorem viable_append_many {p : Pattern α ρ} {F : Form α ρ} {w : List σ} (h : G.Viable (F ++ [.many p]) w) :
    G.Viable F w ∨ ∃ u x v, w = u ++ (x ++ v) ∧ G.Derives F u ∧ G.Derives [.many p] x ∧ G.Viable [p] v := by
  obtain ⟨R, h⟩ := h
  generalize hF : F ++ [.many p] = F' at h
  induction h generalizing F with
  | refl F' => exact Or.inl (viable_nil F)
  | emit ha h ih =>
    cases F with
    | nil => simp at hF
    | cons q F =>
      obtain ⟨rfl, rfl⟩ := List.cons.inj hF
      rcases ih rfl with ⟨R, hv⟩ | ⟨u, x, v, rfl, hu, hx, hv⟩
      · exact Or.inl ⟨R, .emit ha hv⟩
      · exact Or.inr ⟨_ :: u, x, v, rfl, .emit ha hu, hx, hv⟩
  | expand he h ih =>
    cases F with
    | cons q F =>
      obtain ⟨rfl, rfl⟩ := List.cons.inj hF
      rcases ih (List.append_assoc ..) with hv | ⟨u, x, v, rfl, hu, hx, hv⟩
      · exact Or.inl (hv.expand he)
      · exact Or.inr ⟨u, x, v, rfl, .expand he hu, hx, hv⟩
    | nil =>
      obtain ⟨rfl, rfl⟩ := List.cons.inj hF
      have hstop : G.Derives [.many p] [] := Expands.stop.derives (.refl [])
      cases he with
      | stop =>
        cases h
        exact Or.inl (viable_nil [])
      | again =>
        rcases ih (F := [p]) rfl with hv | ⟨u, x, v, rfl, hu, hx, hv⟩
        · exact Or.inr ⟨[], [], _, rfl, .refl [], hstop, hv⟩
        · refine Or.inr ⟨[], u ++ x, v, by simp, .refl [], ?_, hv⟩
          exact Expands.again.derives (derives_cons_iff.2 ⟨u, x, rfl, hu, hx⟩)

/-- What a repetition begins is begun by a round that follows finished rounds. -/
theorem viable_many_iff {p : Pattern α ρ} {w : List σ} :
    G.Viable [.many p] w ↔ ∃ u v, w = u ++ v ∧ G.Derives [.many p] u ∧ G.Viable [p] v := by
  constructor
  · intro h
    rcases viable_append_many (F := []) h with ⟨R, hv⟩ | ⟨u, x, v, rfl, hu, hx, hv⟩
    · cases hv
      exact ⟨[], [], rfl, Expands.stop.derives (.refl []), viable_nil _⟩
    · cases hu
      exact ⟨x, v, rfl, hx, hv⟩
  · rintro ⟨u, v, rfl, hu, hv⟩
    obtain ⟨ws, rfl, hws⟩ := derives_many_iff.1 hu
    clear hu
    induction ws with
    | nil => exact Expands.again.viable (viable_cons_iff.2 (Or.inl hv))
    | cons x ws ih =>
      obtain ⟨hx, hws⟩ := List.forall_mem_cons.1 hws
      exact Expands.again.viable (viable_cons_iff.2 (Or.inr ⟨x, ws.flatten ++ v, by simp, hx, ih hws⟩))

/-! ### Alternatives and sequences -/

theorem derives_ofAlternatives_iff {ps : List (Pattern α ρ)} {w : List σ} :
    G.Derives [.ofAlternatives ps] w ↔ ∃ p ∈ ps, G.Derives [p] w := by
  unfold Pattern.ofAlternatives
  split
  · simp
  · exact derives_alt_iff

theorem viable_ofAlternatives_iff {ps : List (Pattern α ρ)} {w : List σ} :
    G.Viable [.ofAlternatives ps] w ↔ w = [] ∨ ∃ p ∈ ps, G.Viable [p] w := by
  unfold Pattern.ofAlternatives
  split
  · rename_i p
    simp only [List.mem_singleton, exists_eq_left]
    refine ⟨Or.inr, ?_⟩
    rintro (rfl | h)
    · exact viable_nil _
    · exact h
  · exact viable_alt_iff

theorem derives_alternatives_iff {p : Pattern α ρ} {w : List σ} :
    G.Derives [p] w ↔ ∃ q ∈ p.alternatives, G.Derives [q] w := by
  unfold Pattern.alternatives
  split
  · exact derives_alt_iff
  · simp

theorem viable_alternatives_iff {p : Pattern α ρ} {w : List σ} :
    G.Viable [p] w ↔ w = [] ∨ ∃ q ∈ p.alternatives, G.Viable [q] w := by
  unfold Pattern.alternatives
  split
  · exact viable_alt_iff
  · simp only [List.mem_singleton, exists_eq_left]
    refine ⟨Or.inr, ?_⟩
    rintro (rfl | h)
    · exact viable_nil _
    · exact h

theorem derives_ofSequence_iff {ps : List (Pattern α ρ)} {w : List σ} :
    G.Derives [.ofSequence ps] w ↔ G.Derives ps w := by
  unfold Pattern.ofSequence
  split <;> simp

theorem viable_ofSequence_iff {ps : List (Pattern α ρ)} {w : List σ} :
    G.Viable [.ofSequence ps] w ↔ G.Viable ps w := by
  unfold Pattern.ofSequence
  split <;> simp

theorem begins_ofAlternatives_iff {ps : List (Pattern α ρ)} {r : ρ} :
    G.Begins [.ofAlternatives ps] r ↔ ∃ p ∈ ps, G.Begins [p] r := by
  unfold Pattern.ofAlternatives
  split
  · simp
  · exact begins_alt_iff

theorem begins_alternatives_iff {p : Pattern α ρ} {r : ρ} :
    G.Begins [p] r ↔ ∃ q ∈ p.alternatives, G.Begins [q] r := by
  unfold Pattern.alternatives
  split
  · exact begins_alt_iff
  · simp

theorem begins_ofSequence_iff {ps : List (Pattern α ρ)} {r : ρ} : G.Begins [.ofSequence ps] r ↔ G.Begins ps r := by
  unfold Pattern.ofSequence
  split
  · exact ⟨fun h => absurd h not_begins_empty, fun h => absurd h not_begins_nil⟩
  · rfl
  · exact begins_seq_iff

/-! ### One left-recursive rule -/

variable {S : RuleSystem α String σ} {name : String}

/-- A left-recursive alternative is the reference followed by its tail. -/
theorem afterSelf?_eq_some {p t : Pattern α String} (h : Pattern.afterSelf? name p = some t) :
    (p = .ref name ∧ t = .empty) ∨ ∃ rest, p = .seq (.ref name :: rest) ∧ t = .ofSequence rest := by
  unfold Pattern.afterSelf? at h
  split at h
  · split at h <;> cases h
    rename_i hc
    exact Or.inl ⟨by rw [hc], rfl⟩
  · split at h <;> cases h
    rename_i hc
    exact Or.inr ⟨_, by rw [hc], rfl⟩
  · cases h

private theorem derives_afterSelf_iff {p t : Pattern α String} {w : List σ}
    (h : Pattern.afterSelf? name p = some t) :
    S.Derives [p] w ↔ ∃ u v, w = u ++ v ∧ S.Derives [.ref name] u ∧ S.Derives [t] v := by
  rcases afterSelf?_eq_some h with ⟨rfl, rfl⟩ | ⟨rest, rfl, rfl⟩
  · simp
  · rw [derives_seq_iff, derives_cons_iff]
    simp only [derives_ofSequence_iff]

private theorem viable_afterSelf_iff {p t : Pattern α String} {w : List σ}
    (h : Pattern.afterSelf? name p = some t) :
    S.Viable [p] w ↔ S.Viable [.ref name] w ∨ ∃ u v, w = u ++ v ∧ S.Derives [.ref name] u ∧ S.Viable [t] v := by
  rcases afterSelf?_eq_some h with ⟨rfl, rfl⟩ | ⟨rest, rfl, rfl⟩
  · refine ⟨Or.inl, ?_⟩
    rintro (h | ⟨u, v, rfl, hu, hv⟩)
    · exact h
    · rw [viable_empty_iff.1 hv, List.append_nil]
      exact hu.viable
  · rw [viable_seq_iff, viable_cons_iff]
    simp only [viable_ofSequence_iff]

/-- `q` is the loop made of the left-recursive `body`: one of the bases, then any number of tails. -/
structure IsLoop (name : String) (body q : Pattern α String) (bases tails : List (Pattern α String)) :
    Prop where
  mem_bases : ∀ p, p ∈ bases ↔ p ∈ body.alternatives ∧ Pattern.afterSelf? name p = none
  mem_tails : ∀ t, t ∈ tails ↔ t.isEmpty = false ∧ ∃ p ∈ body.alternatives, Pattern.afterSelf? name p = some t
  shape : (tails = [] ∧ q = .ofAlternatives bases) ∨ q = .seq [.ofAlternatives bases, .many (.ofAlternatives tails)]

theorem exists_isLoop {body q : Pattern α String} (h : body.withoutLeftRecursion? name = some q) :
    ∃ bases tails, IsLoop name body q bases tails := by
  unfold Pattern.withoutLeftRecursion? at h
  simp only at h
  split at h
  · cases h
  · have hb : ∀ p, p ∈ body.alternatives.filter (fun p => (Pattern.afterSelf? name p).isNone) ↔
        p ∈ body.alternatives ∧ Pattern.afterSelf? name p = none := by
      simp
    have ht : ∀ t, t ∈ (body.alternatives.filterMap (Pattern.afterSelf? name)).filter (!·.isEmpty) ↔
        t.isEmpty = false ∧ ∃ p ∈ body.alternatives, Pattern.afterSelf? name p = some t := by
      intro t
      rw [List.mem_filter, List.mem_filterMap, Bool.not_eq_true', and_comm]
    split at h
    · rename_i he
      rw [he] at ht
      cases h
      exact ⟨_, [], hb, ht, Or.inl ⟨rfl, rfl⟩⟩
    · cases h
      exact ⟨_, _, hb, ht, Or.inr rfl⟩

variable {body q : Pattern α String} {bases tails : List (Pattern α String)}

/-- Repeating none of no alternatives derives the empty word only. -/
private theorem derives_many_none_iff {w : List σ} : S.Derives [.many (.ofAlternatives [])] w ↔ w = [] := by
  rw [derives_many_iff]
  constructor
  · rintro ⟨ws, rfl, hws⟩
    cases ws with
    | nil => rfl
    | cons x ws =>
      obtain ⟨p, hp, -⟩ := derives_ofAlternatives_iff.1 (hws x (List.mem_cons_self ..))
      cases hp
  · rintro rfl
    exact ⟨[], rfl, by simp⟩

private theorem IsLoop.derives_iff (hl : IsLoop name body q bases tails) {w : List σ} :
    S.Derives [q] w ↔ ∃ u v, w = u ++ v ∧ S.Derives [.ofAlternatives bases] u ∧
      S.Derives [.many (.ofAlternatives tails)] v := by
  rcases hl.shape with ⟨rfl, rfl⟩ | rfl
  · constructor
    · exact fun h => ⟨w, [], (List.append_nil w).symm, h, derives_many_none_iff.2 rfl⟩
    · rintro ⟨u, v, rfl, hu, hv⟩
      rwa [derives_many_none_iff.1 hv, List.append_nil]
  · rw [derives_seq_iff, derives_cons_iff]

private theorem IsLoop.viable_iff (hl : IsLoop name body q bases tails) {w : List σ} :
    S.Viable [q] w ↔ S.Viable [.ofAlternatives bases] w ∨ ∃ u v, w = u ++ v ∧
      S.Derives [.ofAlternatives bases] u ∧ S.Viable [.many (.ofAlternatives tails)] v := by
  rcases hl.shape with ⟨rfl, rfl⟩ | rfl
  · constructor
    · exact Or.inl
    · rintro (h | ⟨u, v, rfl, hu, hv⟩)
      · exact h
      · obtain ⟨x, y, rfl, hx, hy⟩ := viable_many_iff.1 hv
        have hy : y = [] := by
          rcases viable_ofAlternatives_iff.1 hy with hy | ⟨p, hp, -⟩
          · exact hy
          · cases hp
        rw [derives_many_none_iff.1 hx, hy, List.append_nil, List.append_nil]
        exact hu.viable
  · rw [viable_seq_iff, viable_cons_iff]

/-! #### From the loop back to the recursion -/

/-- In the system as written, each round of the loop puts a tail behind a word of the reference. -/
private theorem IsLoop.derives_rounds (hl : IsLoop name body q bases tails) (hb : S.body? name = some body)
    {u : List σ} (hu : S.Derives [.ref name] u) {ws : List (List σ)}
    (hws : ∀ x ∈ ws, S.Derives [.ofAlternatives tails] x) : S.Derives [.ref name] (u ++ ws.flatten) := by
  induction ws generalizing u with
  | nil => simpa using hu
  | cons x ws ih =>
    obtain ⟨hx, hws⟩ := List.forall_mem_cons.1 hws
    obtain ⟨t, ht, hx⟩ := derives_ofAlternatives_iff.1 hx
    obtain ⟨-, p, hp, hpt⟩ := (hl.mem_tails t).1 ht
    have hux : S.Derives [p] (u ++ x) := (derives_afterSelf_iff hpt).2 ⟨u, x, rfl, hu, hx⟩
    -- the other rounds go on behind `u ++ x`
    rw [List.flatten_cons, ← List.append_assoc]
    exact ih (derives_ref_iff.2 ⟨body, hb, derives_alternatives_iff.2 ⟨p, hp, hux⟩⟩) hws

/-- In the system as written, a word of the loop is one of the reference. -/
private theorem IsLoop.derives_ref (hl : IsLoop name body q bases tails) (hb : S.body? name = some body)
    {w : List σ} (h : S.Derives [q] w) : S.Derives [.ref name] w := by
  obtain ⟨u, v, rfl, hu, hv⟩ := hl.derives_iff.1 h
  obtain ⟨ws, rfl, hws⟩ := derives_many_iff.1 hv
  obtain ⟨p, hp, hu⟩ := derives_ofAlternatives_iff.1 hu
  refine hl.derives_rounds hb (derives_ref_iff.2 ⟨body, hb, ?_⟩) hws
  exact derives_alternatives_iff.2 ⟨p, ((hl.mem_bases p).1 hp).1, hu⟩

private theorem IsLoop.viable_ref (hl : IsLoop name body q bases tails) (hb : S.body? name = some body)
    {w : List σ} (h : S.Viable [q] w) : S.Viable [.ref name] w := by
  have hbody : ∀ p ∈ body.alternatives, ∀ w, S.Viable [p] w → S.Viable [.ref name] w := fun p hp w h =>
    viable_ref_iff.2 (Or.inr ⟨body, hb, viable_alternatives_iff.2 (Or.inr ⟨p, hp, h⟩)⟩)
  rcases hl.viable_iff.1 h with h | ⟨u, v, rfl, hu, hv⟩
  · rcases viable_ofAlternatives_iff.1 h with rfl | ⟨p, hp, h⟩
    · exact viable_nil _
    · exact hbody p ((hl.mem_bases p).1 hp).1 w h
  · obtain ⟨x, y, rfl, hx, hy⟩ := viable_many_iff.1 hv
    have hux : S.Derives [.ref name] (u ++ x) := hl.derives_ref hb (hl.derives_iff.2 ⟨u, x, rfl, hu, hx⟩)
    rw [← List.append_assoc]
    rcases viable_ofAlternatives_iff.1 hy with rfl | ⟨t, ht, hy⟩
    · rw [List.append_nil]
      exact hux.viable
    · obtain ⟨-, p, hp, hpt⟩ := (hl.mem_tails t).1 ht
      exact hbody p hp _ ((viable_afterSelf_iff hpt).2 (Or.inr ⟨_, y, rfl, hux, hy⟩))

/-! #### From the recursion to the loop -/

/-- A tail behind a word of the loop is one more round. -/
private theorem IsLoop.derives_tail (hl : IsLoop name body q bases tails) {p t : Pattern α String}
    (hp : p ∈ body.alternatives) (hpt : Pattern.afterSelf? name p = some t) {u v : List σ}
    (hu : S.Derives [q] u) (hv : S.Derives [t] v) : S.Derives [q] (u ++ v) := by
  cases ht : t.isEmpty with
  | true =>
    cases t <;> simp only [Pattern.isEmpty, Bool.false_eq_true] at ht
    rwa [derives_empty_iff.1 hv, List.append_nil]
  | false =>
    obtain ⟨x, y, rfl, hx, hy⟩ := hl.derives_iff.1 hu
    have htail : S.Derives [.ofAlternatives tails] v :=
      derives_ofAlternatives_iff.2 ⟨t, (hl.mem_tails t).2 ⟨ht, p, hp, hpt⟩, hv⟩
    exact hl.derives_iff.2 ⟨x, y ++ v, List.append_assoc .., hx, hy.many_concat htail⟩

private theorem IsLoop.viable_tail (hl : IsLoop name body q bases tails) {p t : Pattern α String}
    (hp : p ∈ body.alternatives) (hpt : Pattern.afterSelf? name p = some t) {u v : List σ}
    (hu : S.Derives [q] u) (hv : S.Viable [t] v) : S.Viable [q] (u ++ v) := by
  cases ht : t.isEmpty with
  | true =>
    cases t <;> simp only [Pattern.isEmpty, Bool.false_eq_true] at ht
    rw [viable_empty_iff.1 hv, List.append_nil]
    exact hu.viable
  | false =>
    obtain ⟨x, y, rfl, hx, hy⟩ := hl.derives_iff.1 hu
    have htail : S.Viable [.ofAlternatives tails] v :=
      viable_ofAlternatives_iff.2 (Or.inr ⟨t, (hl.mem_tails t).2 ⟨ht, p, hp, hpt⟩, hv⟩)
    exact hl.viable_iff.2 (Or.inr ⟨x, y ++ v, List.append_assoc .., hx, viable_many_iff.2 ⟨y, v, rfl, hy, htail⟩⟩)

/-- In the system with the loop, a word of the body as written is one of the reference. -/
private theorem IsLoop.derives_ref_of_body (hl : IsLoop name body q bases tails) (hq : S.body? name = some q)
    {w : List σ} (h : S.Derives [body] w) : S.Derives [.ref name] w := by
  refine derives_ref_iff.2 ⟨q, hq, ?_⟩
  obtain ⟨p, hp, h⟩ := derives_alternatives_iff.1 h
  cases hpt : Pattern.afterSelf? name p with
  | none =>
    -- a base and no rounds
    have hbase : S.Derives [.ofAlternatives bases] w :=
      derives_ofAlternatives_iff.2 ⟨p, (hl.mem_bases p).2 ⟨hp, hpt⟩, h⟩
    exact hl.derives_iff.2 ⟨w, [], (List.append_nil w).symm, hbase, derives_many_iff.2 ⟨[], rfl, by simp⟩⟩
  | some t =>
    obtain ⟨u, v, rfl, hu, hv⟩ := (derives_afterSelf_iff hpt).1 h
    obtain ⟨q', hq', hu⟩ := derives_ref_iff.1 hu
    obtain rfl := Option.some.inj (hq.symm.trans hq')
    exact hl.derives_tail hp hpt hu hv

private theorem IsLoop.viable_ref_of_body (hl : IsLoop name body q bases tails) (hq : S.body? name = some q)
    {w : List σ} (h : S.Viable [body] w) : S.Viable [.ref name] w := by
  rcases viable_alternatives_iff.1 h with rfl | ⟨p, hp, h⟩
  · exact viable_nil _
  · cases hpt : Pattern.afterSelf? name p with
    | none =>
      have hbase : S.Viable [.ofAlternatives bases] w :=
        viable_ofAlternatives_iff.2 (Or.inr ⟨p, (hl.mem_bases p).2 ⟨hp, hpt⟩, h⟩)
      exact viable_ref_iff.2 (Or.inr ⟨q, hq, hl.viable_iff.2 (Or.inl hbase)⟩)
    | some t =>
      rcases (viable_afterSelf_iff hpt).1 h with h | ⟨u, v, rfl, hu, hv⟩
      · exact h
      · obtain ⟨q', hq', hu⟩ := derives_ref_iff.1 hu
        obtain rfl := Option.some.inj (hq.symm.trans hq')
        exact viable_ref_iff.2 (Or.inr ⟨q, hq, hl.viable_tail hp hpt hu hv⟩)

/-! ### Whole systems -/

/-- Some of the rules of `S` have been turned into loops in `T`; the others and the atoms are the same. -/
structure TurnsIntoLoops (S T : RuleSystem α String σ) : Prop where
  accepts_iff : ∀ a x, T.accepts a x ↔ S.accepts a x
  body? : ∀ name, T.body? name = S.body? name ∨
    ∃ p q, S.body? name = some p ∧ p.withoutLeftRecursion? name = some q ∧ T.body? name = some q

variable {T : RuleSystem α String σ}

private theorem TurnsIntoLoops.back (h : TurnsIntoLoops S T) {r : String} {q : Pattern α String}
    (hq : T.body? r = some q) :
    S.body? r = some q ∨ ∃ body bases tails, S.body? r = some body ∧ IsLoop r body q bases tails := by
  rcases h.body? r with he | ⟨p, q', hp, hl, hq'⟩
  · exact Or.inl (he ▸ hq)
  · obtain rfl := Option.some.inj (hq.symm.trans hq')
    obtain ⟨bases, tails, hl⟩ := exists_isLoop hl
    exact Or.inr ⟨p, bases, tails, hp, hl⟩

private theorem TurnsIntoLoops.forth (h : TurnsIntoLoops S T) {r : String} {p : Pattern α String}
    (hp : S.body? r = some p) :
    T.body? r = some p ∨ ∃ q bases tails, T.body? r = some q ∧ IsLoop r p q bases tails := by
  rcases h.body? r with he | ⟨p', q, hp', hl, hq⟩
  · exact Or.inl (he.trans hp)
  · obtain rfl := Option.some.inj (hp.symm.trans hp')
    obtain ⟨bases, tails, hl⟩ := exists_isLoop hl
    exact Or.inr ⟨q, bases, tails, hq, hl⟩

/-- Loops derive the same words as the left recursion they stand for. -/
theorem TurnsIntoLoops.derives_iff (h : TurnsIntoLoops S T) {F : Form α String} {w : List σ} :
    T.Derives F w ↔ S.Derives F w := by
  constructor
  · apply Derives.of_bodies fun a x => (h.accepts_iff a x).1
    intro r q w hq hw
    rcases h.back hq with hp | ⟨body, bases, tails, hb, hl⟩
    · exact derives_ref_iff.2 ⟨q, hp, hw⟩
    · exact hl.derives_ref hb hw
  · apply Derives.of_bodies fun a x => (h.accepts_iff a x).2
    intro r p w hp hw
    rcases h.forth hp with hq | ⟨q, bases, tails, hq, hl⟩
    · exact derives_ref_iff.2 ⟨p, hq, hw⟩
    · exact hl.derives_ref_of_body hq hw

/-- Loops begin with the same words as the left recursion they stand for. -/
theorem TurnsIntoLoops.viable_iff (h : TurnsIntoLoops S T) {F : Form α String} {w : List σ} :
    T.Viable F w ↔ S.Viable F w := by
  constructor
  · apply Viable.of_bodies fun a x => (h.accepts_iff a x).1
    · exact fun r q w hq hw => h.derives_iff.1 (derives_ref_iff.2 ⟨q, hq, h.derives_iff.2 hw⟩)
    · intro r q w hq hw
      rcases h.back hq with hp | ⟨body, bases, tails, hb, hl⟩
      · exact viable_ref_iff.2 (Or.inr ⟨q, hp, hw⟩)
      · exact hl.viable_ref hb hw
  · apply Viable.of_bodies fun a x => (h.accepts_iff a x).2
    · exact fun r p w hp hw => h.derives_iff.2 (derives_ref_iff.2 ⟨p, hp, h.derives_iff.1 hw⟩)
    · intro r p w hp hw
      rcases h.forth hp with hq | ⟨q, bases, tails, hq, hl⟩
      · exact viable_ref_iff.2 (Or.inr ⟨p, hq, hw⟩)
      · exact hl.viable_ref_of_body hq hw

/-! ### What loops begin with -/

/-- A loop begins like one of its bases or, where a base derives the empty word, like what follows a self reference. -/
private theorem IsLoop.begins_cases (hl : IsLoop name body q bases tails) {r : String} (h : S.Begins [q] r) :
    (∃ p ∈ body.alternatives, Pattern.afterSelf? name p = none ∧ S.Begins [p] r) ∨
      ∃ rest, .seq (.ref name :: rest) ∈ body.alternatives ∧ S.Derives [.ofAlternatives bases] [] ∧
        S.Begins rest r := by
  have hbase : S.Begins [.ofAlternatives bases] r →
      ∃ p ∈ body.alternatives, Pattern.afterSelf? name p = none ∧ S.Begins [p] r := by
    intro h
    obtain ⟨p, hp, h⟩ := begins_ofAlternatives_iff.1 h
    obtain ⟨hp, hn⟩ := (hl.mem_bases p).1 hp
    exact ⟨p, hp, hn, h⟩
  rcases hl.shape with ⟨-, rfl⟩ | rfl
  · exact Or.inl (hbase h)
  · rcases begins_cons_iff.1 (begins_seq_iff.1 h) with h | ⟨hd, h⟩
    · exact Or.inl (hbase h)
    · obtain ⟨t, ht, h⟩ := begins_ofAlternatives_iff.1 (begins_many_iff.1 h)
      obtain ⟨he, p, hp, hpt⟩ := (hl.mem_tails t).1 ht
      rcases afterSelf?_eq_some hpt with ⟨-, rfl⟩ | ⟨rest, rfl, rfl⟩
      · cases he
      · exact Or.inr ⟨rest, hp, hd, begins_ofSequence_iff.1 h⟩

/-- In the system as written, the rule of a loop derives the empty word if one of the bases does. -/
private theorem IsLoop.derives_nil (hl : IsLoop name body q bases tails) (hb : S.body? name = some body)
    (h : S.Derives [.ofAlternatives bases] []) : S.Derives [.ref name] [] := by
  obtain ⟨p, hp, h⟩ := derives_ofAlternatives_iff.1 h
  exact derives_ref_iff.2 ⟨body, hb, derives_alternatives_iff.2 ⟨p, ((hl.mem_bases p).1 hp).1, h⟩⟩

/-- Loops begin with no other references than the left recursion they stand for. -/
theorem TurnsIntoLoops.begins (h : TurnsIntoLoops S T) {F : Form α String} {r : String} (hF : T.Begins F r) :
    S.Begins F r := by
  refine hF.of_bodies (fun k p hk hp => ?_) (fun k p hk hp => ?_)
  · exact h.derives_iff.1 (derives_ref_iff.2 ⟨p, hk, h.derives_iff.2 hp⟩)
  · rcases h.back hk with hb | ⟨body, bases, tails, hb, hl⟩
    · exact begins_ref_iff.2 (Or.inr ⟨p, hb, hp⟩)
    · refine begins_ref_iff.2 (Or.inr ⟨body, hb, begins_alternatives_iff.2 ?_⟩)
      rcases hl.begins_cases hp with ⟨p, hp, -, h⟩ | ⟨rest, hp, hd, h⟩
      · exact ⟨p, hp, h⟩
      · exact ⟨_, hp, begins_seq_iff.2 (begins_cons_iff.2 (Or.inr ⟨hl.derives_nil hb hd, h⟩))⟩

/-- The rule is turned into a loop unless none of its alternatives begins with the rule itself, or all of them do. -/
private theorem afterSelf?_of_eq_none (h : body.withoutLeftRecursion? name = none) :
    (∀ p ∈ body.alternatives, Pattern.afterSelf? name p = none) ∨
      ∀ p ∈ body.alternatives, (Pattern.afterSelf? name p).isSome = true := by
  unfold Pattern.withoutLeftRecursion? at h
  simp only at h
  split at h
  · rename_i he
    rcases Bool.or_eq_true_iff.1 he with he | he
    · rw [List.isEmpty_iff, List.filterMap_eq_nil_iff] at he
      exact Or.inl he
    · rw [List.isEmpty_iff, List.filter_eq_nil_iff] at he
      refine Or.inr fun p hp => ?_
      have hne := he p hp
      rwa [Bool.not_eq_true, Option.isNone_eq_false_iff] at hne
  · split at h <;> cases h

/-- A rule whose alternatives all begin with the rule itself derives nothing. -/
private theorem not_derives_of_forall_afterSelf (hb : S.body? name = some body)
    (h : ∀ p ∈ body.alternatives, (Pattern.afterSelf? name p).isSome = true) {w : List σ} :
    ¬ S.Derives [.ref name] w := by
  have hbody : body ∈ body.alternatives ∨ body = .alt body.alternatives := by
    unfold Pattern.alternatives
    split
    · exact Or.inr rfl
    · exact Or.inl (List.mem_singleton.2 rfl)
  -- the expansions go round in a circle: from the rule to its body, to an alternative, and back to the rule
  have hcircle : ∀ {p : Pattern α String} {K R : Form α String} {w : List σ}, S.Yields (p :: K) w R →
      p = .ref name ∨ p ∈ body.alternatives ∨ p = .alt body.alternatives → R ≠ [] := by
    intro p K R w hy hp
    generalize hF : p :: K = F at hy
    induction hy generalizing p K with
    | refl F =>
      subst hF
      exact List.cons_ne_nil p K
    | emit _ _ _ =>
      cases hF
      rcases hp with hp | hp | hp
      · cases hp
      · cases h _ hp
      · cases hp
    | expand he _ ih =>
      obtain ⟨rfl, rfl⟩ := List.cons.inj hF
      have href : ∀ q, S.body? name = some q → q = .ref name ∨ q ∈ body.alternatives ∨ q = .alt body.alternatives := by
        intro q hq
        cases hb.symm.trans hq
        exact Or.inr hbody
      rcases hp with rfl | hp | rfl
      · cases he with
        | ref hr => exact ih (href _ hr) rfl
      · obtain ⟨t, ht⟩ := Option.isSome_iff_exists.1 (h p hp)
        rcases afterSelf?_eq_some ht with ⟨rfl, -⟩ | ⟨rest, rfl, -⟩
        · cases he with
          | ref hr => exact ih (href _ hr) rfl
        · cases he
          exact ih (Or.inl rfl) rfl
      · cases he with
        | alt hp => exact ih (Or.inr (Or.inl hp)) rfl
  exact fun hd => hcircle hd (Or.inl rfl) rfl

/-- A rule that derives something, and whose body begins with the rule itself only at the head of its alternatives, does
not begin with itself any more once it has been turned into a loop. -/
theorem TurnsIntoLoops.not_begins_self (h : TurnsIntoLoops S T) (hb : S.body? name = some body)
    (hproductive : ∃ w, S.Derives [.ref name] w) (hdirect : ¬ S.BeginsElsewhere name body)
    (hheads : ∀ p ∈ body.alternatives, p.First name → (Pattern.afterSelf? name p).isSome = true) :
    ¬ T.Begins [(body.withoutLeftRecursion? name).getD body] name := by
  have helsewhere : ∀ p ∈ body.alternatives, ¬ S.BeginsElsewhere name p := by
    intro p hp he
    unfold Pattern.alternatives at hp
    split at hp
    · exact hdirect (.alt hp he)
    · exact hdirect (List.mem_singleton.1 hp ▸ he)
  intro hself
  replace hself := h.begins hself
  cases hq : body.withoutLeftRecursion? name with
  | some q =>
    rw [hq] at hself
    obtain ⟨bases, tails, hl⟩ := exists_isLoop hq
    rcases hl.begins_cases hself with ⟨p, hp, hn, hself⟩ | ⟨rest, hp, hd, hself⟩
    · rcases hself.first_or_elsewhere with hfirst | he
      · have hsome := hheads p hp hfirst
        rw [hn] at hsome
        cases hsome
      · exact helsewhere p hp he
    · -- the self reference at the head of the alternative derives the empty word
      exact helsewhere _ hp (.behind (hl.derives_nil hb hd) hself)
  | none =>
    rw [hq] at hself
    obtain ⟨p, hp, hself⟩ := begins_alternatives_iff.1 hself
    rcases hself.first_or_elsewhere with hfirst | he
    · rcases afterSelf?_of_eq_none hq with hnone | hall
      · have hsome := hheads p hp hfirst
        rw [hnone p hp] at hsome
        cases hsome
      · obtain ⟨w, hw⟩ := hproductive
        exact not_derives_of_forall_afterSelf hb hall hw
    · exact helsewhere p hp he

end RuleSystem

end Typeahead
