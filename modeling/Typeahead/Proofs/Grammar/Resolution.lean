import Typeahead.Proofs.Except
import Typeahead.Proofs.Grammar.Language

/-!
# Languages of resolved patterns

Replacing names by numbers and merging alternatives of single symbols changes no language.  Both are simulations in
the sense of `RuleSystem.Simulates`, in either direction: `Resolves.simulates` and `Resolves.simulates_back` for
`Pattern.resolve`, `simulates_mergeSymbols` and `simulates_mergeSymbols_back` for `Pattern.mergeSymbols`.
-/

namespace Typeahead

namespace Pattern

variable {α β ρ κ ε σ : Type}

/-! ### Atoms and references -/

mutual

/-- All atoms and all references of the pattern satisfy the predicates. -/
def All (A : α → Prop) (B : ρ → Prop) : Pattern α ρ → Prop
  | .empty => True
  | .atom a => A a
  | .ref r => B r
  | .seq ps => AllOf A B ps
  | .alt ps => AllOf A B ps
  | .optional p => All A B p
  | .many p => All A B p
  | .many1 p => All A B p

/-- All atoms and all references of the patterns satisfy the predicates. -/
def AllOf (A : α → Prop) (B : ρ → Prop) : List (Pattern α ρ) → Prop
  | [] => True
  | p :: ps => All A B p ∧ AllOf A B ps

end

mutual

theorem all_true (p : Pattern α ρ) : p.All (fun _ => True) fun _ => True := by
  match p with
  | .empty | .atom a | .ref r => trivial
  | .seq ps | .alt ps => exact allOf_true ps
  | .optional p | .many p | .many1 p => exact all_true p

theorem allOf_true (ps : List (Pattern α ρ)) : AllOf (fun _ => True) (fun _ => True) ps := by
  match ps with
  | [] => trivial
  | p :: ps => exact ⟨all_true p, allOf_true ps⟩

end

/-! ### Resolving names -/

section Resolve

variable {atom : α → Except ε β} {ref : ρ → Except ε κ}

theorem forall₂_of_resolveAll {ps : List (Pattern α ρ)} {qs : List (Pattern β κ)}
    (h : resolveAll atom ref ps = .ok qs) : List.Forall₂ (fun p q => resolve atom ref p = .ok q) ps qs := by
  induction ps generalizing qs with
  | nil =>
    cases h
    exact .nil
  | cons p ps ih =>
    simp only [resolveAll, except_bind_eq_ok] at h
    obtain ⟨q, hq, qs', hqs, h⟩ := h
    cases h
    exact .cons hq (ih hqs)

open RuleSystem in
/-- A resolved pattern has the shape of the pattern it comes from. -/
theorem sameShape_of_resolve {p : Pattern α ρ} {q : Pattern β κ} (h : resolve atom ref p = .ok q) :
    SameShape (fun a b => atom a = .ok b) (fun r k => ref r = .ok k) (fun p q => resolve atom ref p = .ok q) p q := by
  cases p with
  | empty =>
    cases h
    exact .empty
  | atom a =>
    obtain ⟨b, hb, rfl⟩ := except_map_eq_ok.1 h
    exact .atom hb
  | ref r =>
    obtain ⟨k, hk, rfl⟩ := except_map_eq_ok.1 h
    exact .ref hk
  | seq ps =>
    obtain ⟨qs, hqs, rfl⟩ := except_map_eq_ok.1 h
    exact .seq (forall₂_of_resolveAll hqs)
  | alt ps =>
    obtain ⟨qs, hqs, rfl⟩ := except_map_eq_ok.1 h
    exact .alt (forall₂_of_resolveAll hqs)
  | optional p =>
    obtain ⟨q, hq, rfl⟩ := except_map_eq_ok.1 h
    exact .optional hq
  | many p =>
    obtain ⟨q, hq, rfl⟩ := except_map_eq_ok.1 h
    exact .many hq
  | many1 p =>
    obtain ⟨q, hq, rfl⟩ := except_map_eq_ok.1 h
    exact .many1 hq

mutual

/-- A resolved pattern has the atoms and the references that resolving gives. -/
theorem all_of_resolve {A : β → Prop} {B : κ → Prop} (ha : ∀ {a b}, atom a = .ok b → A b)
    (hr : ∀ {r k}, ref r = .ok k → B k) (p : Pattern α ρ) {q : Pattern β κ} (h : resolve atom ref p = .ok q) :
    q.All A B := by
  match p with
  | .empty =>
    cases h
    trivial
  | .atom a =>
    obtain ⟨b, hb, rfl⟩ := except_map_eq_ok.1 h
    exact ha hb
  | .ref r =>
    obtain ⟨k, hk, rfl⟩ := except_map_eq_ok.1 h
    exact hr hk
  | .seq ps | .alt ps =>
    obtain ⟨qs, hqs, rfl⟩ := except_map_eq_ok.1 h
    exact allOf_of_resolveAll ha hr ps hqs
  | .optional p | .many p | .many1 p =>
    obtain ⟨q, hq, rfl⟩ := except_map_eq_ok.1 h
    have hall := all_of_resolve ha hr p hq
    exact hall

theorem allOf_of_resolveAll {A : β → Prop} {B : κ → Prop} (ha : ∀ {a b}, atom a = .ok b → A b)
    (hr : ∀ {r k}, ref r = .ok k → B k) (ps : List (Pattern α ρ)) {qs : List (Pattern β κ)}
    (h : resolveAll atom ref ps = .ok qs) : AllOf A B qs := by
  match ps with
  | [] =>
    cases h
    trivial
  | p :: ps =>
    simp only [resolveAll, except_bind_eq_ok] at h
    obtain ⟨q, hq, qs, hqs, h⟩ := h
    cases h
    exact ⟨all_of_resolve ha hr p hq, allOf_of_resolveAll ha hr ps hqs⟩

end

theorem resolve_many {p : Pattern α ρ} {q : Pattern β κ} (h : resolve atom ref p = .ok q) :
    resolve atom ref (.many p) = .ok (.many q) := by
  rw [resolve, h]
  rfl

end Resolve

/-- The rules of `H` are those of `G` with atoms and references resolved; `atom` and `ref` may depend on the owner
of a body. -/
structure Resolves (G : RuleSystem α ρ σ) (H : RuleSystem β κ σ) (atom : String → α → Except ε β)
    (ref : String → ρ → Except ε κ) : Prop where
  accepts_iff : ∀ {owner a b}, atom owner a = .ok b → ∀ x, G.accepts a x ↔ H.accepts b x
  body? : ∀ {owner r k}, ref owner r = .ok k → ∃ p q owner, G.body? r = some p ∧ H.body? k = some q ∧
    p.resolve (atom owner) (ref owner) = .ok q

variable {G : RuleSystem α ρ σ} {H : RuleSystem β κ σ} {atom : String → α → Except ε β}
  {ref : String → ρ → Except ε κ}

open RuleSystem

/-- What the body of some owner is resolved to. -/
def ResolvesFor (atom : String → α → Except ε β) (ref : String → ρ → Except ε κ) (p : Pattern α ρ)
    (q : Pattern β κ) : Prop :=
  ∃ owner, p.resolve (atom owner) (ref owner) = .ok q

theorem resolvesFor_ref (owner : String) {r : ρ} {k : κ} (h : ref owner r = .ok k) :
    ResolvesFor atom ref (.ref r) (.ref k) :=
  ⟨owner, by rw [resolve, h]; rfl⟩

private theorem ResolvesFor.sameShape {p : Pattern α ρ} {q : Pattern β κ} (h : ResolvesFor atom ref p q) :
    SameShape (fun a b => ∃ owner, atom owner a = .ok b) (fun r k => ∃ owner, ref owner r = .ok k)
      (ResolvesFor atom ref) p q := by
  obtain ⟨owner, h⟩ := h
  exact (sameShape_of_resolve h).mono (fun _ _ h => ⟨owner, h⟩) (fun _ _ h => ⟨owner, h⟩) fun _ _ h => ⟨owner, h⟩

/-- Only a reference is resolved to a reference. -/
theorem ResolvesFor.exists_ref {p : Pattern α ρ} {k : κ} (h : ResolvesFor atom ref p (.ref k)) :
    ∃ r, p = .ref r ∧ ∃ owner, ref owner r = .ok k := by
  cases h.sameShape with
  | ref h => exact ⟨_, rfl, h⟩

/-- A resolved pattern does all that the pattern does. -/
theorem Resolves.simulates (h : Resolves G H atom ref) : Simulates G H (ResolvesFor atom ref) := by
  apply Simulates.of_sameShape fun _ _ => ResolvesFor.sameShape
  · rintro p q ⟨owner, hpq⟩
    exact ⟨owner, resolve_many hpq⟩
  · rintro r k p ⟨owner, hk⟩ hp
    obtain ⟨p', q, owner', hp', hq, hpq⟩ := h.body? hk
    obtain rfl := Option.some.inj (hp.symm.trans hp')
    exact ⟨q, hq, owner', hpq⟩
  · rintro a b x ⟨owner, hb⟩
    exact (h.accepts_iff hb x).1

/-- A resolved pattern does no more than the pattern. -/
theorem Resolves.simulates_back (h : Resolves G H atom ref) :
    Simulates H G fun q p => ResolvesFor atom ref p q := by
  apply Simulates.of_sameShape fun _ _ hpq => hpq.sameShape.flip
  · rintro q p ⟨owner, hpq⟩
    exact ⟨owner, resolve_many hpq⟩
  · rintro k r q ⟨owner, hk⟩ hq
    obtain ⟨p, q', owner', hp, hq', hpq⟩ := h.body? hk
    obtain rfl := Option.some.inj (hq.symm.trans hq')
    exact ⟨p, hp, owner', hpq⟩
  · rintro b a x ⟨owner, hb⟩
    exact (h.accepts_iff hb x).2

/-! ### Merging symbols -/

private theorem mergeSymbolsAll_eq_map {ps : List (Pattern (Label TokenKind (List TokenKind)) ρ)} :
    mergeSymbolsAll ps = ps.map mergeSymbols := by
  induction ps with
  | nil => rfl
  | cons p ps ih => rw [mergeSymbolsAll, ih, List.map_cons]

theorem symbols?_eq_some {ps : List (Pattern (Label TokenKind (List TokenKind)) ρ)} {ss : List TokenKind}
    (h : symbols? ps = some ss) : ps = ss.map fun s => .atom (.symbol s) := by
  fun_induction symbols? ps generalizing ss with
  | case1 =>
    cases h
    rfl
  | case2 s ps ih =>
    obtain ⟨ss', hs, rfl⟩ := Option.map_eq_some_iff.1 h
    rw [List.map_cons, ← ih hs]
  | case3 => cases h

private theorem forall₂_mergeSymbols (ps : List (Pattern (Label TokenKind (List TokenKind)) ρ)) :
    List.Forall₂ (fun p q => q = mergeSymbols p) ps (ps.map mergeSymbols) := by
  rw [List.forall₂_map_right_iff, List.forall₂_same]
  exact fun _ _ => rfl

/-- Merging keeps the shape of a pattern, or replaces an alternation of symbols by a set. -/
private theorem sameShape_or_of_mergeSymbols (p : Pattern (Label TokenKind (List TokenKind)) ρ) :
    SameShape Eq Eq (fun p q => q = mergeSymbols p) p (mergeSymbols p) ∨
      ∃ ss : List TokenKind, ss ≠ [] ∧ p = .alt (ss.map fun s => .atom (.symbol s)) ∧
        mergeSymbols p = .atom (.oneOf ss.eraseDups) := by
  cases p with
  | empty => exact Or.inl .empty
  | atom a => exact Or.inl (.atom rfl)
  | ref r => exact Or.inl (.ref rfl)
  | optional p => exact Or.inl (.optional rfl)
  | many p => exact Or.inl (.many rfl)
  | many1 p => exact Or.inl (.many1 rfl)
  | seq ps =>
    rw [mergeSymbols, mergeSymbolsAll_eq_map]
    exact Or.inl (.seq (forall₂_mergeSymbols ps))
  | alt ps =>
    rw [mergeSymbols]
    split
    · rename_i a b rest hs
      exact Or.inr ⟨a :: b :: rest, by simp, by rw [symbols?_eq_some hs], rfl⟩
    · rw [mergeSymbolsAll_eq_map]
      exact Or.inl (.alt (forall₂_mergeSymbols ps))

/-- Only an atom or an alternation of symbols is merged to an atom. -/
private theorem eq_atom_mergeSymbols {a : Label TokenKind (List TokenKind)}
    {p : Pattern (Label TokenKind (List TokenKind)) ρ} (h : .atom a = mergeSymbols p) :
    p = .atom a ∨ ∃ ss : List TokenKind, ss ≠ [] ∧ p = .alt (ss.map fun s => .atom (.symbol s)) ∧
      a = .oneOf ss.eraseDups := by
  rcases sameShape_or_of_mergeSymbols p with hs | ⟨ss, hss, hp, hq⟩
  · rw [← h] at hs
    cases hs with
    | atom h => exact Or.inl (by rw [h])
  · rw [← h] at hq
    cases hq
    exact Or.inr ⟨ss, hss, hp, rfl⟩

/-- Nothing but a reference is merged to a reference. -/
theorem eq_ref_of_mergeSymbols {r : ρ} {p : Pattern (Label TokenKind (List TokenKind)) ρ}
    (h : .ref r = mergeSymbols p) : p = .ref r := by
  rcases sameShape_or_of_mergeSymbols p with hs | ⟨ss, -, -, hq⟩
  · rw [← h] at hs
    cases hs with
    | ref h => rw [h]
  · rw [← h] at hq
    cases hq

/-- What a merged pattern stands for; inside an alternation of symbols, each symbol stands behind the set. -/
def MergesTo (p q : Pattern (Label TokenKind (List TokenKind)) RuleId) : Prop :=
  q = mergeSymbols p ∨ ∃ s set, p = .atom (.symbol s) ∧ q = .atom (.oneOf set) ∧ s ∈ set

variable {bodies : List (ResolvedPattern TokenKind (List TokenKind))}

/-- A merged pattern does all that the pattern does. -/
theorem simulates_mergeSymbols :
    Simulates (.ofBodies bodies) (.ofBodies (bodies.map mergeSymbols)) MergesTo := by
  refine ⟨?_, ?_, ?_⟩
  · rintro p q E (rfl | ⟨s, set, rfl, -, -⟩) he
    · rcases sameShape_or_of_mergeSymbols p with hs | ⟨ss, -, rfl, hq⟩
      · obtain ⟨E', he, hE⟩ := hs.exists_expands (H := .ofBodies (bodies.map mergeSymbols))
          (by rintro p q rfl; rfl) (by
            rintro r k p rfl hp
            exact ⟨mergeSymbols p, by simp_all [ofBodies], rfl⟩) he
        exact ⟨E', he.yields, hE.imp fun _ _ h => Or.inl h⟩
      · cases he with
        | alt hp =>
          obtain ⟨s, hs, rfl⟩ := List.mem_map.1 hp
          rw [hq]
          exact ⟨_, .refl _, .cons (Or.inr ⟨s, _, rfl, rfl, List.mem_eraseDups.2 hs⟩) .nil⟩
    · cases he
  · rintro a q x (rfl | ⟨s, set, ha, rfl, hs⟩) hx
    · exact ⟨a, .refl _, hx⟩
    · cases ha
      obtain rfl : s = x := by simpa [ofBodies, Label.accepts] using hx
      exact ⟨_, .refl _, by simpa [ofBodies, Label.accepts, SymbolSet.contains] using hs⟩
  · rintro a q (rfl | ⟨s, set, -, rfl, -⟩)
    · exact ⟨a, .refl _⟩
    · exact ⟨_, .refl _⟩

/-- A merged pattern does no more than the pattern. -/
theorem simulates_mergeSymbols_back :
    Simulates (.ofBodies (bodies.map mergeSymbols)) (.ofBodies bodies) fun q p => q = mergeSymbols p := by
  refine ⟨?_, ?_, ?_⟩
  · rintro q p E rfl he
    rcases sameShape_or_of_mergeSymbols p with hs | ⟨ss, -, -, hq⟩
    · obtain ⟨E', he, hE⟩ := hs.flip.exists_expands (H := .ofBodies bodies) (by rintro p q rfl; rfl) (by
        rintro r k q rfl hq
        obtain ⟨p, hp, rfl⟩ : ∃ p, bodies[k]? = some p ∧ mergeSymbols p = q := by simpa [ofBodies] using hq
        exact ⟨p, hp, rfl⟩) he
      exact ⟨E', he.yields, hE⟩
    · rw [hq] at he
      cases he
  · intro b p x hb hx
    rcases eq_atom_mergeSymbols hb with rfl | ⟨ss, -, rfl, rfl⟩
    · exact ⟨b, .refl _, hx⟩
    · have hs : x ∈ ss := by simpa [ofBodies, Label.accepts, SymbolSet.contains] using hx
      refine ⟨.symbol x, (Expands.alt (List.mem_map.2 ⟨x, hs, rfl⟩)).yields, ?_⟩
      simp [ofBodies, Label.accepts]
  · intro b p hb
    rcases eq_atom_mergeSymbols hb with rfl | ⟨ss, hss, rfl, -⟩
    · exact ⟨b, .refl _⟩
    · obtain ⟨s, hs⟩ := List.exists_mem_of_ne_nil ss hss
      exact ⟨.symbol s, (Expands.alt (List.mem_map.2 ⟨s, hs, rfl⟩)).yields⟩

end Pattern

end Typeahead
