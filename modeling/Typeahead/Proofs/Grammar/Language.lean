import Mathlib.Data.List.Forall2
import Typeahead.Grammar.Pattern

/-!
# Languages of rule bodies

Rule bodies form an extended context-free grammar once it is said what atoms accept and which body a reference
stands for (`RuleSystem`).  A form is a list of patterns still to be matched; a leftmost expansion works on its
first pattern, and `Yields` says that leftmost expansions of a form yield a word followed by a remaining form.

The main facts: a concatenation of forms yields what its parts yield one after the other
(`yields_append_cases`), and a relation between the patterns of two systems that is kept by every leftmost
expansion carries over what their forms yield (`Simulates.yields`).
-/

namespace Typeahead

/-- What the atoms and the references of rule bodies stand for. -/
structure RuleSystem (α ρ σ : Type) where
  /-- The symbols that an atom stands for. -/
  accepts : α → σ → Prop
  /-- The body of the rule that is referred to. -/
  body? : ρ → Option (Pattern α ρ)

/-- Patterns still to be matched, from left to right. -/
abbrev Form (α ρ : Type) := List (Pattern α ρ)

namespace RuleSystem

/-- The rules whose bodies are listed; an atom is a label of a network and a reference the number of a rule. -/
def ofBodies {σ τ : Type} [DecidableEq σ] [SymbolSet τ σ] (bodies : List (ResolvedPattern σ τ)) :
    RuleSystem (Label σ τ) RuleId σ where
  accepts label x := label.accepts x = true
  body? rule := bodies[rule]?

variable {α ρ β κ σ : Type}

/-- One leftmost expansion: a pattern that is no atom is replaced by a form. -/
inductive Expands (G : RuleSystem α ρ σ) : Pattern α ρ → Form α ρ → Prop where
  | empty : Expands G .empty []
  | ref {r : ρ} {p : Pattern α ρ} (h : G.body? r = some p) : Expands G (.ref r) [p]
  | seq {ps : Form α ρ} : Expands G (.seq ps) ps
  | alt {p : Pattern α ρ} {ps : List (Pattern α ρ)} (h : p ∈ ps) : Expands G (.alt ps) [p]
  | skip {p : Pattern α ρ} : Expands G (.optional p) []
  | take {p : Pattern α ρ} : Expands G (.optional p) [p]
  | stop {p : Pattern α ρ} : Expands G (.many p) []
  | again {p : Pattern α ρ} : Expands G (.many p) [p, .many p]
  | many1 {p : Pattern α ρ} : Expands G (.many1 p) [p, .many p]

/-- Leftmost expansions of a form yield a word followed by a remaining form. -/
inductive Yields (G : RuleSystem α ρ σ) : Form α ρ → List σ → Form α ρ → Prop where
  | refl (F : Form α ρ) : Yields G F [] F
  | expand {p : Pattern α ρ} {E F R : Form α ρ} {w : List σ} (he : G.Expands p E) (h : Yields G (E ++ F) w R) :
    Yields G (p :: F) w R
  | emit {a : α} {x : σ} {F R : Form α ρ} {w : List σ} (ha : G.accepts a x) (h : Yields G F w R) :
    Yields G (.atom a :: F) (x :: w) R

/-- Some leftmost expansion of the form yields the word followed by whatever remains. -/
def Viable (G : RuleSystem α ρ σ) (F : Form α ρ) (w : List σ) : Prop := ∃ R, G.Yields F w R

/-- The form derives exactly the word. -/
def Derives (G : RuleSystem α ρ σ) (F : Form α ρ) (w : List σ) : Prop := G.Yields F w []

/-- Some leftmost expansion of the form yields the word, and its next item is an atom. -/
def Live (G : RuleSystem α ρ σ) (F : Form α ρ) (w : List σ) : Prop := ∃ a R, G.Yields F w (.atom a :: R)

variable {G : RuleSystem α ρ σ} {H : RuleSystem β κ σ}

/-! ### Composing and splitting -/

theorem Yields.trans {F M R : Form α ρ} {u v : List σ} (h : G.Yields F u M) (h' : G.Yields M v R) :
    G.Yields F (u ++ v) R := by
  induction h with
  | refl F => exact h'
  | expand he _ ih => exact .expand he (ih h')
  | emit ha _ ih => exact .emit ha (ih h')

/-- What stands behind a form is not touched by its expansions. -/
theorem Yields.append_right {F R : Form α ρ} {w : List σ} (h : G.Yields F w R) (S : Form α ρ) :
    G.Yields (F ++ S) w (R ++ S) := by
  induction h with
  | refl F => exact .refl _
  | expand he _ ih =>
    rw [List.append_assoc] at ih
    exact .expand he ih
  | emit ha _ ih => exact .emit ha ih

/-- A single expansion. -/
theorem Expands.yields {p : Pattern α ρ} {E : Form α ρ} (h : G.Expands p E) : G.Yields [p] [] E :=
  .expand h (by rw [List.append_nil]; exact .refl E)

/-- A concatenation either yields the word within its first part, or finishes the first part on the way. -/
theorem yields_append_cases {F S R : Form α ρ} {w : List σ} (h : G.Yields (F ++ S) w R) :
    (∃ R', R = R' ++ S ∧ G.Yields F w R') ∨ ∃ u v, w = u ++ v ∧ G.Derives F u ∧ G.Yields S v R := by
  -- expansions and symbols belong to `F` until nothing is left of it
  generalize hF : F ++ S = F' at h
  induction h generalizing F with
  | refl F' =>
    subst hF
    exact Or.inl ⟨F, rfl, .refl F⟩
  | expand he h ih =>
    rename_i p E F' R w
    cases F with
    | nil =>
      refine Or.inr ⟨[], w, rfl, .refl [], ?_⟩
      rw [List.nil_append] at hF
      subst hF
      exact .expand he h
    | cons q F =>
      obtain ⟨rfl, rfl⟩ := List.cons.inj hF
      rcases ih (List.append_assoc ..) with ⟨R', rfl, hy⟩ | ⟨u, v, rfl, hd, hy⟩
      · exact Or.inl ⟨R', rfl, .expand he hy⟩
      · exact Or.inr ⟨u, v, rfl, .expand he hd, hy⟩
  | emit ha h ih =>
    rename_i a x F' R w
    cases F with
    | nil =>
      refine Or.inr ⟨[], x :: w, rfl, .refl [], ?_⟩
      rw [List.nil_append] at hF
      subst hF
      exact .emit ha h
    | cons q F =>
      obtain ⟨rfl, rfl⟩ := List.cons.inj hF
      rcases ih rfl with ⟨R', rfl, hy⟩ | ⟨u, v, rfl, hd, hy⟩
      · exact Or.inl ⟨R', rfl, .emit ha hy⟩
      · exact Or.inr ⟨x :: u, v, rfl, .emit ha hd, hy⟩

/-- The word can be cut anywhere. -/
theorem yields_append_word {F R : Form α ρ} {u v : List σ} (h : G.Yields F (u ++ v) R) :
    ∃ M, G.Yields F u M ∧ G.Yields M v R := by
  generalize hw : u ++ v = w at h
  induction h generalizing u with
  | refl F =>
    obtain ⟨rfl, rfl⟩ := List.append_eq_nil_iff.1 hw
    exact ⟨F, .refl F, .refl F⟩
  | expand he _ ih =>
    obtain ⟨M, hu, hv⟩ := ih hw
    exact ⟨M, .expand he hu, hv⟩
  | emit ha h ih =>
    cases u with
    | nil =>
      rw [List.nil_append] at hw
      subst hw
      exact ⟨_, .refl _, .emit ha h⟩
    | cons y u =>
      obtain ⟨rfl, rfl⟩ := List.cons.inj hw
      obtain ⟨M, hu, hv⟩ := ih rfl
      exact ⟨M, .emit ha hu, hv⟩

@[simp] theorem viable_nil (F : Form α ρ) : G.Viable F [] := ⟨F, .refl F⟩

theorem Derives.viable {F : Form α ρ} {w : List σ} (h : G.Derives F w) : G.Viable F w := ⟨[], h⟩

/-- A beginning of a viable word is viable. -/
theorem Viable.of_append {F : Form α ρ} {u v : List σ} (h : G.Viable F (u ++ v)) : G.Viable F u := by
  obtain ⟨R, h⟩ := h
  obtain ⟨M, hu, -⟩ := yields_append_word h
  exact ⟨M, hu⟩

theorem derives_append_iff {F S : Form α ρ} {w : List σ} :
    G.Derives (F ++ S) w ↔ ∃ u v, w = u ++ v ∧ G.Derives F u ∧ G.Derives S v := by
  constructor
  · intro h
    rcases yields_append_cases h with ⟨R', hR, hy⟩ | ⟨u, v, rfl, hd, hy⟩
    · obtain ⟨rfl, rfl⟩ := List.append_eq_nil_iff.1 hR.symm
      exact ⟨w, [], (List.append_nil w).symm, hy, .refl []⟩
    · exact ⟨u, v, rfl, hd, hy⟩
  · rintro ⟨u, v, rfl, hu, hv⟩
    exact (hu.append_right S).trans hv

theorem viable_append_iff {F S : Form α ρ} {w : List σ} :
    G.Viable (F ++ S) w ↔ G.Viable F w ∨ ∃ u v, w = u ++ v ∧ G.Derives F u ∧ G.Viable S v := by
  constructor
  · rintro ⟨R, h⟩
    rcases yields_append_cases h with ⟨R', -, hy⟩ | ⟨u, v, rfl, hd, hy⟩
    · exact Or.inl ⟨R', hy⟩
    · exact Or.inr ⟨u, v, rfl, hd, R, hy⟩
  · rintro (⟨R, h⟩ | ⟨u, v, rfl, hu, R, hv⟩)
    · exact ⟨R ++ S, h.append_right S⟩
    · exact ⟨R, (hu.append_right S).trans hv⟩

theorem derives_cons_iff {p : Pattern α ρ} {F : Form α ρ} {w : List σ} :
    G.Derives (p :: F) w ↔ ∃ u v, w = u ++ v ∧ G.Derives [p] u ∧ G.Derives F v :=
  derives_append_iff (F := [p])

theorem viable_cons_iff {p : Pattern α ρ} {F : Form α ρ} {w : List σ} :
    G.Viable (p :: F) w ↔ G.Viable [p] w ∨ ∃ u v, w = u ++ v ∧ G.Derives [p] u ∧ G.Viable F v :=
  viable_append_iff (F := [p])

/-- A pattern derives what one of its expansions derives. -/
theorem Expands.derives {p : Pattern α ρ} {E : Form α ρ} {w : List σ} (he : G.Expands p E) (h : G.Derives E w) :
    G.Derives [p] w :=
  .expand he (by rwa [List.append_nil])

theorem Viable.expand {p : Pattern α ρ} {E F : Form α ρ} {w : List σ} (h : G.Viable (E ++ F) w)
    (he : G.Expands p E) : G.Viable (p :: F) w := by
  obtain ⟨R, h⟩ := h
  exact ⟨R, .expand he h⟩

theorem Expands.viable {p : Pattern α ρ} {E : Form α ρ} {w : List σ} (he : G.Expands p E) (h : G.Viable E w) :
    G.Viable [p] w :=
  Viable.expand (by rwa [List.append_nil]) he

/-- A word derived by a pattern that is no atom is derived by one of its expansions. -/
theorem Derives.exists_expands {p : Pattern α ρ} {w : List σ} (h : G.Derives [p] w) (hp : ∀ a, p ≠ .atom a) :
    ∃ E, G.Expands p E ∧ G.Derives E w := by
  cases h with
  | expand he h =>
    rw [List.append_nil] at h
    exact ⟨_, he, h⟩
  | emit ha h => exact absurd rfl (hp _)

/-- A viable word of a pattern that is no atom is empty or viable after an expansion. -/
theorem Viable.exists_expands {p : Pattern α ρ} {w : List σ} (h : G.Viable [p] w) (hp : ∀ a, p ≠ .atom a) :
    w = [] ∨ ∃ E, G.Expands p E ∧ G.Viable E w := by
  obtain ⟨R, h⟩ := h
  cases h with
  | refl => exact Or.inl rfl
  | expand he h =>
    rw [List.append_nil] at h
    exact Or.inr ⟨_, he, R, h⟩
  | emit ha h => exact absurd rfl (hp _)

/-! ### The patterns one by one -/

@[simp] theorem derives_nil_iff {w : List σ} : G.Derives [] w ↔ w = [] := by
  constructor
  · intro h
    cases h
    rfl
  · rintro rfl
    exact .refl []

@[simp] theorem viable_nil_iff {w : List σ} : G.Viable [] w ↔ w = [] := by
  constructor
  · rintro ⟨R, h⟩
    cases h
    rfl
  · rintro rfl
    exact viable_nil []

@[simp] theorem derives_empty_iff {w : List σ} : G.Derives [.empty] w ↔ w = [] := by
  rw [← derives_nil_iff (G := G)]
  refine ⟨fun h => ?_, Expands.empty.derives⟩
  obtain ⟨E, he, h⟩ := h.exists_expands (by simp)
  cases he
  exact h

@[simp] theorem viable_empty_iff {w : List σ} : G.Viable [.empty] w ↔ w = [] := by
  rw [← viable_nil_iff (G := G)]
  refine ⟨fun h => ?_, Expands.empty.viable⟩
  rcases h.exists_expands (by simp) with rfl | ⟨E, he, h⟩
  · exact viable_nil []
  · cases he
    exact h

theorem derives_ref_iff {r : ρ} {w : List σ} : G.Derives [.ref r] w ↔ ∃ p, G.body? r = some p ∧ G.Derives [p] w := by
  constructor
  · intro h
    obtain ⟨E, he, h⟩ := h.exists_expands (by simp)
    cases he with
    | ref hr => exact ⟨_, hr, h⟩
  · rintro ⟨p, hr, h⟩
    exact (Expands.ref hr).derives h

theorem viable_ref_iff {r : ρ} {w : List σ} :
    G.Viable [.ref r] w ↔ w = [] ∨ ∃ p, G.body? r = some p ∧ G.Viable [p] w := by
  constructor
  · intro h
    rcases h.exists_expands (by simp) with h | ⟨E, he, h⟩
    · exact Or.inl h
    · cases he with
      | ref hr => exact Or.inr ⟨_, hr, h⟩
  · rintro (rfl | ⟨p, hr, h⟩)
    · exact viable_nil _
    · exact (Expands.ref hr).viable h

/-- A reference does just what the body of its rule does. -/
theorem ref_iff_of_body {r : ρ} {p : Pattern α ρ} {w : List σ} (h : G.body? r = some p) :
    (G.Viable [.ref r] w ↔ G.Viable [p] w) ∧ (G.Live [.ref r] w ↔ G.Live [p] w) ∧
      (G.Derives [.ref r] w ↔ G.Derives [p] w) := by
  refine ⟨⟨fun hw => ?_, (Expands.ref h).viable⟩, ⟨?_, ?_⟩, ⟨fun hw => ?_, (Expands.ref h).derives⟩⟩
  · rcases viable_ref_iff.1 hw with rfl | ⟨q, hq, hw⟩
    · exact viable_nil _
    · cases h.symm.trans hq
      exact hw
  · rintro ⟨a, R, hy⟩
    cases hy with
    | expand he hy =>
      cases he with
      | ref hq =>
        cases h.symm.trans hq
        exact ⟨a, R, hy⟩
  · rintro ⟨a, R, hy⟩
    exact ⟨a, R, .expand (.ref h) hy⟩
  · obtain ⟨q, hq, hw⟩ := derives_ref_iff.1 hw
    cases h.symm.trans hq
    exact hw

@[simp] theorem derives_seq_iff {ps : Form α ρ} {w : List σ} : G.Derives [.seq ps] w ↔ G.Derives ps w := by
  refine ⟨fun h => ?_, Expands.seq.derives⟩
  obtain ⟨E, he, h⟩ := h.exists_expands (by simp)
  cases he
  exact h

@[simp] theorem viable_seq_iff {ps : Form α ρ} {w : List σ} : G.Viable [.seq ps] w ↔ G.Viable ps w := by
  refine ⟨fun h => ?_, Expands.seq.viable⟩
  rcases h.exists_expands (by simp) with rfl | ⟨E, he, h⟩
  · exact viable_nil ps
  · cases he
    exact h

theorem derives_alt_iff {ps : List (Pattern α ρ)} {w : List σ} :
    G.Derives [.alt ps] w ↔ ∃ p ∈ ps, G.Derives [p] w := by
  constructor
  · intro h
    obtain ⟨E, he, h⟩ := h.exists_expands (by simp)
    cases he with
    | alt hp => exact ⟨_, hp, h⟩
  · rintro ⟨p, hp, h⟩
    exact (Expands.alt hp).derives h

theorem viable_alt_iff {ps : List (Pattern α ρ)} {w : List σ} :
    G.Viable [.alt ps] w ↔ w = [] ∨ ∃ p ∈ ps, G.Viable [p] w := by
  constructor
  · intro h
    rcases h.exists_expands (by simp) with h | ⟨E, he, h⟩
    · exact Or.inl h
    · cases he with
      | alt hp => exact Or.inr ⟨_, hp, h⟩
  · rintro (rfl | ⟨p, hp, h⟩)
    · exact viable_nil _
    · exact (Expands.alt hp).viable h

/-! ### Comparing two systems -/

section Bodies

variable {G' : RuleSystem α ρ σ}

/-- Only the expansions of references depend on the system. -/
theorem Expands.ref_or {p : Pattern α ρ} {E : Form α ρ} (h : G.Expands p E) (G' : RuleSystem α ρ σ) :
    (∃ r q, p = .ref r ∧ E = [q] ∧ G.body? r = some q) ∨ G'.Expands p E := by
  cases h with
  | ref h => exact Or.inl ⟨_, _, rfl, rfl, h⟩
  | empty => exact Or.inr .empty
  | seq => exact Or.inr .seq
  | alt h => exact Or.inr (.alt h)
  | skip => exact Or.inr .skip
  | take => exact Or.inr .take
  | stop => exact Or.inr .stop
  | again => exact Or.inr .again
  | many1 => exact Or.inr .many1

/-- A system derives all that another one over the same atoms derives, if each of its references derives what the
body of the rule in the other system derives. -/
theorem Derives.of_bodies (ha : ∀ a x, G.accepts a x → G'.accepts a x)
    (hd : ∀ r p w, G.body? r = some p → G'.Derives [p] w → G'.Derives [.ref r] w) {F : Form α ρ} {w : List σ}
    (h : G.Derives F w) : G'.Derives F w := by
  unfold Derives at h
  generalize hR : ([] : Form α ρ) = R at h
  induction h with
  | refl F =>
    subst hR
    exact .refl []
  | emit hx _ ih => exact .emit (ha _ _ hx) (ih hR)
  | expand he _ ih =>
    -- only a reference is expanded differently, and its body stays in one piece
    rcases he.ref_or G' with ⟨r, q, rfl, rfl, hr⟩ | he
    · obtain ⟨u, v, rfl, hu, hv⟩ := derives_append_iff.1 (ih hR)
      exact derives_cons_iff.2 ⟨u, v, rfl, hd _ _ _ hr hu, hv⟩
    · exact .expand he (ih hR)

/-- The same for the words that can be begun. -/
theorem Viable.of_bodies (ha : ∀ a x, G.accepts a x → G'.accepts a x)
    (hd : ∀ r p w, G.body? r = some p → G'.Derives [p] w → G'.Derives [.ref r] w)
    (hv : ∀ r p w, G.body? r = some p → G'.Viable [p] w → G'.Viable [.ref r] w) {F : Form α ρ} {w : List σ}
    (h : G.Viable F w) : G'.Viable F w := by
  obtain ⟨R, h⟩ := h
  induction h with
  | refl F => exact viable_nil F
  | emit hx _ ih =>
    obtain ⟨R, ih⟩ := ih
    exact ⟨R, .emit (ha _ _ hx) ih⟩
  | expand he _ ih =>
    rcases he.ref_or G' with ⟨r, q, rfl, rfl, hr⟩ | he
    · rw [viable_cons_iff]
      rcases viable_append_iff.1 ih with hw | ⟨u, v, rfl, hu, hw⟩
      · exact Or.inl (hv _ _ _ hr hw)
      · exact Or.inr ⟨u, v, rfl, hd _ _ _ hr hu, hw⟩
    · exact ih.expand he

end Bodies

/-- Related patterns do the same: every expansion of the left one is matched by expansions of the right one, and
an atom is matched by atoms. -/
structure Simulates (G : RuleSystem α ρ σ) (H : RuleSystem β κ σ) (S : Pattern α ρ → Pattern β κ → Prop) :
    Prop where
  expands : ∀ {p q E}, S p q → G.Expands p E → ∃ E', H.Yields [q] [] E' ∧ List.Forall₂ S E E'
  accepts : ∀ {a q x}, S (.atom a) q → G.accepts a x → ∃ b, H.Yields [q] [] [.atom b] ∧ H.accepts b x
  atoms : ∀ {a q}, S (.atom a) q → ∃ b, H.Yields [q] [] [.atom b]

variable {S : Pattern α ρ → Pattern β κ → Prop}

/-- Related forms yield the same words, with related forms remaining. -/
theorem Simulates.yields (hS : Simulates G H S) {F R : Form α ρ} {F' : Form β κ} {w : List σ}
    (h : G.Yields F w R) (hF : List.Forall₂ S F F') : ∃ R', H.Yields F' w R' ∧ List.Forall₂ S R R' := by
  induction h generalizing F' with
  | refl F => exact ⟨F', .refl F', hF⟩
  | expand he _ ih =>
    obtain ⟨q, F', hq, hFF, rfl⟩ := List.forall₂_cons_left_iff.1 hF
    obtain ⟨E', hE, hEE⟩ := hS.expands hq he
    obtain ⟨R', hR, hRR⟩ := ih (List.rel_append hEE hFF)
    exact ⟨R', (hE.append_right F').trans hR, hRR⟩
  | emit ha _ ih =>
    obtain ⟨q, F', hq, hFF, rfl⟩ := List.forall₂_cons_left_iff.1 hF
    obtain ⟨b, hb, hx⟩ := hS.accepts hq ha
    obtain ⟨R', hR, hRR⟩ := ih hFF
    exact ⟨R', (hb.append_right F').trans (.emit hx hR), hRR⟩

/-- Two patterns are built in the same way from related parts: `A` relates the atoms, `B` the references and `S` the
immediate parts. -/
inductive SameShape (A : α → β → Prop) (B : ρ → κ → Prop) (S : Pattern α ρ → Pattern β κ → Prop) :
    Pattern α ρ → Pattern β κ → Prop where
  | empty : SameShape A B S .empty .empty
  | atom {a : α} {b : β} (h : A a b) : SameShape A B S (.atom a) (.atom b)
  | ref {r : ρ} {k : κ} (h : B r k) : SameShape A B S (.ref r) (.ref k)
  | seq {ps : List (Pattern α ρ)} {qs : List (Pattern β κ)} (h : List.Forall₂ S ps qs) :
    SameShape A B S (.seq ps) (.seq qs)
  | alt {ps : List (Pattern α ρ)} {qs : List (Pattern β κ)} (h : List.Forall₂ S ps qs) :
    SameShape A B S (.alt ps) (.alt qs)
  | optional {p : Pattern α ρ} {q : Pattern β κ} (h : S p q) : SameShape A B S (.optional p) (.optional q)
  | many {p : Pattern α ρ} {q : Pattern β κ} (h : S p q) : SameShape A B S (.many p) (.many q)
  | many1 {p : Pattern α ρ} {q : Pattern β κ} (h : S p q) : SameShape A B S (.many1 p) (.many1 q)

variable {A : α → β → Prop} {B : ρ → κ → Prop}

theorem SameShape.flip {p : Pattern α ρ} {q : Pattern β κ} (h : SameShape A B S p q) :
    SameShape (fun b a => A a b) (fun k r => B r k) (fun q p => S p q) q p := by
  cases h with
  | empty => exact .empty
  | atom h => exact .atom h
  | ref h => exact .ref h
  | seq h => exact .seq h.flip
  | alt h => exact .alt h.flip
  | optional h => exact .optional h
  | many h => exact .many h
  | many1 h => exact .many1 h

theorem SameShape.mono {A' : α → β → Prop} {B' : ρ → κ → Prop} {S' : Pattern α ρ → Pattern β κ → Prop}
    (hA : ∀ a b, A a b → A' a b) (hB : ∀ r k, B r k → B' r k) (hS : ∀ p q, S p q → S' p q) {p : Pattern α ρ}
    {q : Pattern β κ} (h : SameShape A B S p q) : SameShape A' B' S' p q := by
  cases h with
  | empty => exact .empty
  | atom h => exact .atom (hA _ _ h)
  | ref h => exact .ref (hB _ _ h)
  | seq h => exact .seq (h.imp hS)
  | alt h => exact .alt (h.imp hS)
  | optional h => exact .optional (hS _ _ h)
  | many h => exact .many (hS _ _ h)
  | many1 h => exact .many1 (hS _ _ h)

theorem exists_mem_of_forall₂ {X Y : Type} {R : X → Y → Prop} {xs : List X} {ys : List Y}
    (h : List.Forall₂ R xs ys) {x : X} (hx : x ∈ xs) : ∃ y ∈ ys, R x y := by
  induction h with
  | nil => cases hx
  | cons hxy _ ih =>
    rcases List.mem_cons.1 hx with rfl | hx
    · exact ⟨_, List.mem_cons_self .., hxy⟩
    · obtain ⟨y, hy, hxy⟩ := ih hx
      exact ⟨y, List.mem_cons_of_mem _ hy, hxy⟩

/-- Patterns of the same shape are expanded in the same way. -/
theorem SameShape.exists_expands (hmany : ∀ p q, S p q → S (.many p) (.many q))
    (hbody : ∀ r k p, B r k → G.body? r = some p → ∃ q, H.body? k = some q ∧ S p q) {p : Pattern α ρ}
    {q : Pattern β κ} {E : Form α ρ} (h : SameShape A B S p q) (he : G.Expands p E) :
    ∃ E', H.Expands q E' ∧ List.Forall₂ S E E' := by
  cases he with
  | empty =>
    cases h
    exact ⟨[], .empty, .nil⟩
  | ref hp =>
    cases h with
    | ref hk =>
      obtain ⟨q, hq, hpq⟩ := hbody _ _ _ hk hp
      exact ⟨[q], .ref hq, .cons hpq .nil⟩
  | seq =>
    cases h with
    | seq h => exact ⟨_, .seq, h⟩
  | alt hp =>
    cases h with
    | alt h =>
      obtain ⟨q, hq, hpq⟩ := exists_mem_of_forall₂ h hp
      exact ⟨[q], .alt hq, .cons hpq .nil⟩
  | skip =>
    cases h
    exact ⟨[], .skip, .nil⟩
  | take =>
    cases h with
    | optional h => exact ⟨_, .take, .cons h .nil⟩
  | stop =>
    cases h
    exact ⟨[], .stop, .nil⟩
  | again =>
    cases h with
    | many h => exact ⟨_, .again, .cons h (.cons (hmany _ _ h) .nil)⟩
  | many1 =>
    cases h with
    | many1 h => exact ⟨_, .many1, .cons h (.cons (hmany _ _ h) .nil)⟩

/-- Patterns of the same shape do the same, if related atoms accept the same and related references stand for
related bodies. -/
theorem Simulates.of_sameShape (hS : ∀ p q, S p q → SameShape A B S p q)
    (hmany : ∀ p q, S p q → S (.many p) (.many q))
    (hbody : ∀ r k p, B r k → G.body? r = some p → ∃ q, H.body? k = some q ∧ S p q)
    (haccepts : ∀ a b x, A a b → G.accepts a x → H.accepts b x) : Simulates G H S := by
  refine ⟨?_, ?_, ?_⟩
  · intro p q E hpq he
    obtain ⟨E', he, hE⟩ := (hS p q hpq).exists_expands hmany hbody he
    exact ⟨E', he.yields, hE⟩
  · intro a q x hq hx
    cases hS _ q hq with
    | atom hb => exact ⟨_, .refl _, haccepts _ _ x hb hx⟩
  · intro a q hq
    cases hS _ q hq with
    | atom hb => exact ⟨_, .refl _⟩

theorem Simulates.derives (hS : Simulates G H S) {p : Pattern α ρ} {q : Pattern β κ} {w : List σ} (hq : S p q)
    (h : G.Derives [p] w) : H.Derives [q] w := by
  obtain ⟨R', hR, hRR⟩ := hS.yields h (.cons hq .nil)
  obtain rfl := List.forall₂_nil_left_iff.1 hRR
  exact hR

theorem Simulates.viable (hS : Simulates G H S) {p : Pattern α ρ} {q : Pattern β κ} {w : List σ} (hq : S p q)
    (h : G.Viable [p] w) : H.Viable [q] w := by
  obtain ⟨R, h⟩ := h
  obtain ⟨R', hR, -⟩ := hS.yields h (.cons hq .nil)
  exact ⟨R', hR⟩

theorem Simulates.live (hS : Simulates G H S) {p : Pattern α ρ} {q : Pattern β κ} {w : List σ} (hq : S p q)
    (h : G.Live [p] w) : H.Live [q] w := by
  obtain ⟨a, R, h⟩ := h
  obtain ⟨R', hR, hRR⟩ := hS.yields h (.cons hq .nil)
  obtain ⟨q', R', hq', -, rfl⟩ := List.forall₂_cons_left_iff.1 hRR
  obtain ⟨b, hb⟩ := hS.atoms hq'
  refine ⟨b, R', ?_⟩
  have h' := hR.trans (hb.append_right R')
  rwa [List.append_nil] at h'

end RuleSystem

end Typeahead
