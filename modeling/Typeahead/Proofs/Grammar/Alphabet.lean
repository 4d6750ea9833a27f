import Typeahead.Proofs.Grammar.Declared
import Typeahead.Proofs.Grammar.Leaves

/-!
# The characters of a token

Each symbol that a form yields is accepted by one of its leaves (`Yields.exists_leaf`), so a token whose leaves do not
accept some character reads no text with that character.  Texts of atoms are derived atom by atom
(`derives_atoms_iff`); hence a literal derives itself and nothing else (`derives_literals_iff`), and a keyword derives
what agrees with it letter by letter (`derives_caseless_iff`).
-/

namespace Typeahead

/-- The pattern that matches atoms one behind the other. -/
def Pattern.word {α ρ : Type} : List α → Pattern α ρ
  | [a] => .atom a
  | as => .seq (as.map .atom)

open Pattern

namespace RuleSystem

variable {α ρ σ : Type} {G : RuleSystem α ρ σ} {F R : Form α ρ} {w : List σ}

/-- An expansion keeps leaves only. -/
theorem Expands.leaves_subset {p : Pattern α ρ} {E : Form α ρ} (h : G.Expands p E) (hp : ∀ r, p ≠ .ref r) :
    ∀ x ∈ leavesOf E, x ∈ p.leaves := by
  intro x hx
  cases h with
  | empty => cases hx
  | ref => exact absurd rfl (hp _)
  | seq => exact hx
  | alt hq =>
    rw [leavesOf, leavesOf, List.append_nil] at hx
    exact mem_leavesOf.2 ⟨_, hq, hx⟩
  | skip => cases hx
  | take => simpa [leavesOf, leaves] using hx
  | stop => cases hx
  | again => simpa [leavesOf, leaves] using hx
  | many1 => simpa [leavesOf, leaves] using hx

/-- In a form without references each symbol is accepted by an atom of the form. -/
theorem Yields.exists_leaf (h : G.Yields F w R) (hF : ∀ r, .inr r ∉ leavesOf F) :
    ∀ x ∈ w, ∃ a, .inl a ∈ leavesOf F ∧ G.accepts a x := by
  induction h with
  | refl F => simp
  | @expand p E F R w he _ ih =>
    have hp : ∀ r, p ≠ .ref r := by
      rintro r rfl
      exact hF r (List.mem_append_left _ (List.mem_singleton.2 rfl))
    have hsub : ∀ y ∈ leavesOf (E ++ F), y ∈ leavesOf (p :: F) := by
      intro y hy
      rw [leavesOf_eq_flatMap, List.flatMap_append, List.mem_append, ← leavesOf_eq_flatMap, ← leavesOf_eq_flatMap] at hy
      rw [leavesOf, List.mem_append]
      exact hy.imp_left (he.leaves_subset hp y)
    intro x hx
    obtain ⟨a, ha, hax⟩ := ih (fun r hr => hF r (hsub _ hr)) x hx
    exact ⟨a, hsub _ ha, hax⟩
  | @emit a x F R w ha _ ih =>
    intro y hy
    rcases List.mem_cons.1 hy with rfl | hy
    · exact ⟨a, List.mem_append_left _ (List.mem_singleton.2 rfl), ha⟩
    · obtain ⟨b, hb, hby⟩ := ih (fun r hr => hF r (List.mem_append_right _ hr)) y hy
      exact ⟨b, List.mem_append_right _ hb, hby⟩

/-- A pattern whose leaves are atoms that do not accept a symbol reads no word with that symbol. -/
theorem not_viable_of_leaves {p : Pattern α ρ} {x : σ}
    (hp : ∀ leaf ∈ p.leaves, ∃ a, leaf = .inl a ∧ ¬ G.accepts a x) (hx : x ∈ w) : ¬ G.Viable [p] w := by
  rintro ⟨R, h⟩
  have hleaves : ∀ leaf ∈ leavesOf [p], ∃ a, leaf = .inl a ∧ ¬ G.accepts a x := by
    rw [leavesOf, leavesOf, List.append_nil]
    exact hp
  have hfree : ∀ r, .inr r ∉ leavesOf [p] := by
    intro r hr
    obtain ⟨a, ha, -⟩ := hleaves _ hr
    cases ha
  obtain ⟨a, ha, hax⟩ := h.exists_leaf hfree x hx
  obtain ⟨b, hb, hbx⟩ := hleaves _ ha
  cases hb
  exact hbx hax

/-- A sequence that begins with an atom begins with what the atom accepts. -/
theorem accepts_of_viable_seq {a : α} {x : σ} (h : G.Viable [.seq (.atom a :: F)] (x :: w)) : G.accepts a x := by
  obtain ⟨R, h⟩ := viable_seq_iff.1 h
  cases h with
  | expand he => cases he
  | emit ha => exact ha

/-- Atoms derive word by word what they accept. -/
theorem derives_atoms_iff {as : List α} : G.Derives (as.map .atom) w ↔ List.Forall₂ G.accepts as w := by
  constructor
  · intro h
    induction as generalizing w with
    | nil =>
      rw [derives_nil_iff.1 h]
      exact .nil
    | cons a as ih =>
      cases h with
      | expand he => cases he
      | emit ha h => exact .cons ha (ih h)
  · intro h
    induction h with
    | nil => exact .refl []
    | cons ha _ ih => exact .emit ha ih

/-- A word derives symbol by symbol what its atoms accept. -/
theorem derives_word_iff {as : List α} : G.Derives [.word as] w ↔ List.Forall₂ G.accepts as w := by
  rw [← derives_atoms_iff]
  match as with
  | [] => exact derives_seq_iff
  | [a] => exact Iff.rfl
  | a :: b :: as => exact derives_seq_iff

end RuleSystem

namespace Pattern

theorem literal_eq_word (text : String) : literal text = word (text.toList.map .char) := by
  unfold literal
  split
  · rename_i c hc
    rw [hc]
    rfl
  · rename_i hne
    match hcs : text.toList with
    | [] => rfl
    | [c] => exact absurd hcs (hne c)
    | c :: d :: cs => simp [word]

variable {α β ρ κ ε A : Type} {atom : α → Except ε β} {ref : ρ → Except ε κ}

theorem resolveAll_map {p : A → Pattern α ρ} {q : A → Pattern β κ} {l : List A}
    (h : ∀ x ∈ l, (p x).resolve atom ref = .ok (q x)) : resolveAll atom ref (l.map p) = .ok (l.map q) := by
  induction l with
  | nil => rfl
  | cons x l ih =>
    obtain ⟨hx, hl⟩ := List.forall_mem_cons.1 h
    rw [List.map_cons, resolveAll, hx, ih hl]
    rfl

/-- A word is resolved atom by atom. -/
theorem resolve_word {f : A → α} {f' : A → β} {l : List A} (h : ∀ x ∈ l, atom (f x) = .ok (f' x)) :
    (word (l.map f)).resolve atom ref = .ok (word (l.map f')) := by
  have hatoms : ∀ x ∈ l, (Pattern.atom (f x) : Pattern α ρ).resolve atom ref = .ok (.atom (f' x)) := by
    intro x hx
    rw [resolve, h x hx]
    rfl
  match l with
  | [] => rfl
  | [x] => exact hatoms x (List.mem_singleton.2 rfl)
  | x :: y :: l =>
    have hseq : ∀ {γ ω : Type} (k : A → γ), (word ((x :: y :: l).map k) : Pattern γ ω) =
        .seq ((x :: y :: l).map fun x => .atom (k x)) := by
      intro γ ω k
      simp [word]
    rw [hseq, hseq, resolve, resolveAll_map hatoms]
    rfl

theorem caseless_eq_seq (keyword : String) : caseless keyword = .seq ((keyword.toList.map fun c =>
    if Text.isAlphabetic c then LexAtom.set (.anyCase c) else .char c).map .atom) := by
  rw [List.map_map]
  rfl

end Pattern

namespace Declarations

variable {d : Declarations} {u : List Char}

theorem derives_literal_iff {text : String} : d.lexicalSystem.Derives [.literal text] u ↔ u = text.toList := by
  have haccepts : ∀ c x, d.lexicalSystem.accepts (.char c) x ↔ c = x := fun _ _ => eq_comm
  rw [literal_eq_word, RuleSystem.derives_word_iff, List.forall₂_map_left_iff]
  simp only [haccepts, List.forall₂_eq_eq_eq]
  exact eq_comm

/-- A token of literals derives just these. -/
theorem derives_literals_iff {texts : List String} :
    d.lexicalSystem.Derives [.literals texts] u ↔ ∃ text ∈ texts, u = text.toList := by
  rw [Pattern.literals, RuleSystem.derives_alt_iff]
  constructor
  · rintro ⟨p, hp, h⟩
    obtain ⟨text, htext, rfl⟩ := List.mem_map.1 hp
    exact ⟨text, htext, derives_literal_iff.1 h⟩
  · rintro ⟨text, htext, h⟩
    exact ⟨_, List.mem_map_of_mem htext, derives_literal_iff.2 h⟩

/-- A keyword derives what agrees with it letter by letter. -/
theorem derives_caseless_iff {keyword : String} : d.lexicalSystem.Derives [.caseless keyword] u ↔
    List.Forall₂ (fun c x => if Text.isAlphabetic c then (Text.CharSet.anyCase c).contains x = true else x = c)
      keyword.toList u := by
  have haccepts : ∀ c x, d.lexicalSystem.accepts (if Text.isAlphabetic c then .set (.anyCase c) else .char c) x ↔
      if Text.isAlphabetic c then (Text.CharSet.anyCase c).contains x = true else x = c := by
    intro c x
    split <;> exact Iff.rfl
  rw [caseless_eq_seq, RuleSystem.derives_seq_iff, RuleSystem.derives_atoms_iff, List.forall₂_map_left_iff]
  simp only [haccepts]

/-- Literals are resolved to words side by side. -/
theorem resolveLexical_literals (names : List String) (owner : String) (texts : List String) :
    resolveLexical names owner (.literals texts) =
      .ok (.alt ((texts.map fun text => text.toList.map .symbol).map .word)) := by
  have htexts : ∀ text ∈ texts, (Pattern.literal text).resolve lexicalLabel
      (fun name => number names (.undefinedFragment owner name) name) = .ok (.word (text.toList.map .symbol)) := by
    intro text _
    rw [Pattern.literal_eq_word]
    exact Pattern.resolve_word fun c _ => rfl
  rw [resolveLexical, Pattern.literals, resolve, resolveAll_map htexts, List.map_map]
  rfl

/-- The leaves of literals are their characters. -/
theorem mem_leaves_literals {texts : List String} {leaf : LexAtom ⊕ String}
    (h : leaf ∈ (Pattern.literals texts).leaves) : ∃ text ∈ texts, ∃ c ∈ text.toList, leaf = .inl (.char c) := by
  rw [Pattern.literals, leaves, mem_leavesOf] at h
  obtain ⟨p, hp, hleaf⟩ := h
  obtain ⟨text, htext, rfl⟩ := List.mem_map.1 hp
  refine ⟨text, htext, ?_⟩
  unfold Pattern.literal at hleaf
  split at hleaf
  · rename_i c hc
    rw [hc]
    exact ⟨c, List.mem_singleton.2 rfl, List.mem_singleton.1 hleaf⟩
  · rw [leaves, mem_leavesOf] at hleaf
    obtain ⟨p, hp, hleaf⟩ := hleaf
    obtain ⟨c, hc, rfl⟩ := List.mem_map.1 hp
    exact ⟨c, hc, List.mem_singleton.1 hleaf⟩

end Declarations

end Typeahead
