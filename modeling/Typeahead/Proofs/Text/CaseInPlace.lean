import Mathlib.Data.List.TakeWhile
import Typeahead.Proofs.Text.LetterCase

/-!
# Letter case in its place

Which small sigma a capital one becomes depends on the text around it, so a character has its lower case in a place
(`lowercaseAt`).  Two mappings whose images, if they differ, do so from the first character on are compared place by
place (`imagesInPlace_prefix_iff`).  So the lower case of a text begins with that of its beginning unless a word goes on
behind a sigma (`lowercaseFrom_prefix_iff`), and by way of upper case if the characters of the beginning keep their
lower case in their places (`lowercaseFrom_prefix_uppercase_iff`).  A text in lower case stays as it is
(`lowercase_lowercase`).
-/

namespace Typeahead.Text

variable {c x y : Char} {cs f t before : List Char}

/-! ### Images in their places -/

/-- The images of the characters of `cs`, each between the characters before it (nearest first) and those after it. -/
def imagesInPlace (image : List Char → Char → List Char → List Char) : List Char → List Char → List Char
  | _, [] => []
  | before, c :: cs => image before c cs ++ imagesInPlace image (c :: before) cs

/-- Two texts that begin with different characters. -/
def Apart : List Char → List Char → Prop
  | x :: _, y :: _ => x ≠ y
  | _, _ => False

instance : ∀ u v, Decidable (Apart u v)
  | x :: _, y :: _ => inferInstanceAs (Decidable (x ≠ y))
  | [], _ => inferInstanceAs (Decidable False)
  | _ :: _, [] => inferInstanceAs (Decidable False)

theorem Apart.ne {u v : List Char} (h : Apart u v) : u ≠ v := by
  rintro rfl
  cases u with
  | nil => exact h
  | cons x u => exact h rfl

theorem Apart.not_append_prefix {u v : List Char} (h : Apart u v) (u' v' : List Char) : ¬ u ++ u' <+: v ++ v' := by
  intro hprefix
  match u, v, h with
  | x :: u, y :: v, h => exact h (List.cons_prefix_cons.1 hprefix).1

theorem imagesInPlace_append (image : List Char → Char → List Char → List Char) (before f t : List Char) :
    imagesInPlace image before (f ++ t) =
      imagesInPlace (fun before c after => image before c (after ++ t)) before f ++
        imagesInPlace image (f.reverse ++ before) t := by
  induction f generalizing before with
  | nil => rfl
  | cons c f ih =>
    rw [List.cons_append, imagesInPlace, imagesInPlace, ih, List.append_assoc, List.reverse_cons, List.append_assoc]
    rfl

/-- Where images differ from the first character on if they differ at all, the images of a text begin a text of other
images just if they are the same in each place. -/
theorem imagesInPlace_prefix_iff {A B : List Char → Char → List Char → List Char}
    (hAB : ∀ before c after, A before c after = B before c after ∨ Apart (A before c after) (B before c after))
    (before f rest : List Char) :
    imagesInPlace A before f <+: imagesInPlace B before f ++ rest ↔
      ∀ a c b, f = a ++ c :: b → A (a.reverse ++ before) c b = B (a.reverse ++ before) c b := by
  induction f generalizing before with
  | nil => simp [imagesInPlace]
  | cons x f ih =>
    rw [imagesInPlace, imagesInPlace, List.append_assoc]
    rcases hAB before x f with he | hapart
    · rw [he, List.prefix_append_right_inj, ih (x :: before)]
      constructor
      · intro h a c b hf
        cases a with
        | nil =>
          cases hf
          exact he
        | cons y a =>
          obtain ⟨rfl, rfl⟩ := List.cons.inj hf
          simpa using h a c b rfl
      · rintro h a c b rfl
        simpa using h (x :: a) c b rfl
    · exact iff_of_false (hapart.not_append_prefix _ _) fun h => hapart.ne (h [] x f rfl)

/-! ### Lower case -/

/-- The lower case of a character between two texts, the first with its nearest character first. -/
def lowercaseAt (before : List Char) (c : Char) (after : List Char) : List Char :=
  if c = 'Σ' then [if endsWord before after then 'ς' else 'σ'] else lowercaseChar c

theorem lowercaseFrom_eq (before cs : List Char) : lowercaseFrom before cs = imagesInPlace lowercaseAt before cs := by
  induction cs generalizing before with
  | nil => rfl
  | cons c cs ih => rw [lowercaseFrom, imagesInPlace, ih, lowercaseAt]

theorem lowercaseAt_eq_or_apart (before after before' after' : List Char) (c : Char) :
    lowercaseAt before c after = lowercaseAt before' c after' ∨
      Apart (lowercaseAt before c after) (lowercaseAt before' c after') := by
  unfold lowercaseAt
  by_cases hc : c = 'Σ'
  · rw [if_pos hc, if_pos hc, List.singleton_inj]
    exact em _
  · rw [if_neg hc, if_neg hc]
    exact Or.inl rfl

theorem beginsCased_of_ignorable (h : ∀ c ∈ f, isCaseIgnorable c = true) : beginsCased f = false := by
  unfold beginsCased
  rw [List.dropWhile_eq_nil_iff.2 h]

theorem beginsCased_append_of_ignorable (h : ∀ c ∈ f, isCaseIgnorable c = true) (t : List Char) :
    beginsCased (f ++ t) = beginsCased t := by
  unfold beginsCased
  rw [List.dropWhile_append, List.dropWhile_eq_nil_iff.2 h]
  rfl

theorem beginsCased_append_of_not_ignorable (h : ¬ ∀ c ∈ f, isCaseIgnorable c = true) (t : List Char) :
    beginsCased (f ++ t) = beginsCased f := by
  rw [← List.dropWhile_eq_nil_iff] at h
  obtain ⟨c, cs, hd⟩ := List.exists_cons_of_ne_nil h
  unfold beginsCased
  rw [List.dropWhile_append, hd]
  rfl

/-- More text changes the lower case of a capital sigma only, and only where the sigma has ended a word that goes on in
the new text. -/
theorem lowercaseAt_append_eq_iff {after : List Char} : lowercaseAt before c after = lowercaseAt before c (after ++ t) ↔
    ¬ (c = 'Σ' ∧ beginsCased before = true ∧ (∀ d ∈ after, isCaseIgnorable d = true) ∧ beginsCased t = true) := by
  unfold lowercaseAt
  by_cases hc : c = 'Σ'
  · have hforms : ∀ p q : Bool, ((if p then 'ς' else 'σ') = if q then 'ς' else 'σ') ↔ p = q := by decide
    rw [if_pos hc, if_pos hc, List.singleton_inj, hforms, endsWord, endsWord]
    by_cases hafter : ∀ d ∈ after, isCaseIgnorable d = true
    · rw [beginsCased_append_of_ignorable hafter, beginsCased_of_ignorable hafter]
      simp only [hc, eq_true hafter, true_and]
      cases beginsCased before <;> cases beginsCased t <;> decide
    · rw [beginsCased_append_of_not_ignorable hafter]
      exact iff_of_true rfl fun h => hafter h.2.2.1
  · rw [if_neg hc, if_neg hc]
    exact iff_of_true rfl fun h => hc h.1

/-- The first text ends in a capital sigma that ends a word, and the second one continues the word. -/
def SigmaRunsOn (f t : List Char) : Prop :=
  ∃ a b, f = a ++ 'Σ' :: b ∧ beginsCased a.reverse = true ∧ (∀ c ∈ b, isCaseIgnorable c = true) ∧ beginsCased t = true

/-- Unless a word goes on behind its last sigma, the lower case of a text begins with that of its beginning. -/
theorem lowercaseFrom_prefix_iff (f t : List Char) :
    lowercaseFrom [] f <+: lowercaseFrom [] (f ++ t) ↔ ¬ SigmaRunsOn f t := by
  rw [lowercaseFrom_eq, lowercaseFrom_eq, imagesInPlace_append,
    imagesInPlace_prefix_iff fun before c after => lowercaseAt_eq_or_apart before after before (after ++ t) c]
  simp only [lowercaseAt_append_eq_iff, List.append_nil]
  constructor
  · rintro h ⟨a, b, hf, ha, hb, ht⟩
    exact h a 'Σ' b hf ⟨rfl, ha, hb, ht⟩
  · rintro h a c b hf ⟨rfl, ha, hb, ht⟩
    exact h ⟨a, b, hf, ha, hb, ht⟩

theorem length_lowercaseFrom (before cs : List Char) :
    (lowercaseFrom before cs).length = (cs.flatMap lowercaseChar).length := by
  induction cs generalizing before with
  | nil => rfl
  | cons c cs ih =>
    rw [lowercaseFrom, List.flatMap_cons, List.length_append, List.length_append, ih]
    by_cases hc : c = 'Σ'
    · rw [if_pos hc, hc, lowercaseChar_sigma]
      rfl
    · rw [if_neg hc]

/-- A text that begins with the lower case of a longer fragment begins with that of the fragment before it grew, unless
the fragment has grown behind a sigma. -/
theorem lowercaseFrom_prefix_iff_of_append {u : List Char} (h : lowercaseFrom [] (f ++ t) <+: u) :
    lowercaseFrom [] f <+: u ↔ ¬ SigmaRunsOn f t := by
  rw [← lowercaseFrom_prefix_iff]
  refine ⟨fun hf => List.prefix_of_prefix_length_le hf h ?_, fun hf => hf.trans h⟩
  rw [length_lowercaseFrom, length_lowercaseFrom, List.flatMap_append, List.length_append]
  exact Nat.le_add_right ..

/-! ### Lower case of lower case -/

/-- All images in the table are mapped to themselves. -/
private theorem lowercase_images :
    (lowercaseRuns.all fun r => CaseRun.passes lowercaseRuns r.image r.lastImage r.stride &&
        unexpanded lowercaseExpansions r.image r.lastImage) = true ∧
      (lowercaseExpansions.all fun e => (e.2.map Char.ofNat).all fun y => lowercaseChar y == [y]) = true := by
  decide +kernel

theorem lowercaseChar_of_mem (h : y ∈ lowercaseChar c) : lowercaseChar y = [y] := by
  rcases lowercaseChar_cases c with hself | ⟨r, hr, y', ⟨k, hk, hstride, -, himage⟩, hrun⟩ | ⟨e, he, -, hexp⟩
  · rw [hself, List.mem_singleton] at h
    rw [h, hself]
  · rw [hrun, List.mem_singleton] at h
    subst h
    have hpass := List.all_eq_true.1 lowercase_images.1 r hr
    rw [Bool.and_eq_true] at hpass
    have hlen : r.lastImage - r.image = r.last - r.first := Nat.add_sub_cancel_left ..
    exact caseImage_of_passes hpass.1 hpass.2 (Nat.le_add_right ..) (hlen ▸ hk) hstride himage
  · rw [hexp] at h
    have himages := List.all_eq_true.1 lowercase_images.2 e he
    exact beq_iff_eq.1 (List.all_eq_true.1 himages y h)

theorem lowercaseChar_of_mem_lowercaseFrom (h : y ∈ lowercaseFrom before cs) : lowercaseChar y = [y] := by
  induction cs generalizing before with
  | nil => cases h
  | cons c cs ih =>
    rw [lowercaseFrom, List.mem_append] at h
    rcases h with h | h
    · split at h
      · have hsmall : lowercaseChar 'σ' = ['σ'] ∧ lowercaseChar 'ς' = ['ς'] := by decide +kernel
        rw [List.mem_singleton] at h
        subst h
        split
        · exact hsmall.2
        · exact hsmall.1
      · exact lowercaseChar_of_mem h
    · exact ih h

theorem lowercaseFrom_of_fixed (h : ∀ y ∈ cs, lowercaseChar y = [y]) : lowercaseFrom before cs = cs := by
  induction cs generalizing before with
  | nil => rfl
  | cons c cs ih =>
    obtain ⟨hc, hcs⟩ := List.forall_mem_cons.1 h
    have hsigma : c ≠ 'Σ' := by
      rintro rfl
      cases lowercaseChar_sigma.symm.trans hc
    rw [lowercaseFrom, if_neg hsigma, hc, ih hcs]
    rfl

/-- A text in lower case stays as it is. -/
theorem lowercase_lowercase (s : String) : lowercase (lowercase s) = lowercase s := by
  unfold lowercase
  rw [String.toList_ofList, lowercaseFrom_of_fixed fun y hy => lowercaseChar_of_mem_lowercaseFrom hy]

/-! ### Upper case and back -/

/-- Longer images in upper case lead back to their letters, or to texts that begin otherwise; and no run leads to the
one letter whose lower case is longer. -/
private theorem uppercase_images :
    (∀ e ∈ uppercaseExpansions, lowercaseChar (Char.ofNat e.1) = (e.2.map Char.ofNat).flatMap lowercaseChar ∨
        Apart (lowercaseChar (Char.ofNat e.1)) ((e.2.map Char.ofNat).flatMap lowercaseChar)) ∧
      (∀ e ∈ lowercaseExpansions, e.1 = 0x130) ∧ ∀ r ∈ uppercaseRuns, 0x130 < r.image ∨ r.lastImage < 0x130 := by
  decide +kernel

private theorem lowercaseChar_eq_singleton (hc : c ≠ 'İ') : ∃ x, lowercaseChar c = [x] := by
  rcases lowercaseChar_cases c with hself | ⟨r, -, y, -, hrun⟩ | ⟨e, he, hcode, -⟩
  · exact ⟨c, hself⟩
  · exact ⟨y, hrun⟩
  · rw [uppercase_images.2.1 e he] at hcode
    exact absurd (by rw [← Char.ofNat_toNat c, hcode]) hc

/-- Back from upper case a letter has its own lower case, or another one from the first character on. -/
theorem lowercaseChar_eq_or_apart (c : Char) : lowercaseChar c = (uppercaseChar c).flatMap lowercaseChar ∨
    Apart (lowercaseChar c) ((uppercaseChar c).flatMap lowercaseChar) := by
  rcases uppercaseChar_cases c with hself | ⟨r, hr, y, hmaps, hrun⟩ | ⟨e, he, hc, hexp⟩
  · rw [hself, List.flatMap_singleton]
    exact Or.inl rfl
  · rw [hrun, List.flatMap_singleton]
    rcases uppercaseChar_back hrun with hback | ⟨-, halone⟩
    · exact Or.inl hback.symm
    by_cases hyc : y = c
    · rw [hyc]
      exact Or.inl rfl
    · -- the letter and its image have single characters as their lower case, and not the same one
      have hydotted : y ≠ 'İ' := by
        rintro rfl
        have himage : r.image ≤ 0x130 ∧ 0x130 ≤ r.lastImage := hmaps.image_le
        have hrange := uppercase_images.2.2 r hr
        omega
      have hcdotted : c ≠ 'İ' := by
        rintro rfl
        have hfixed : uppercaseChar 'İ' = ['İ'] := by decide +kernel
        exact hyc (List.singleton_inj.1 (hrun.symm.trans hfixed))
      obtain ⟨u, hu⟩ := lowercaseChar_eq_singleton hcdotted
      obtain ⟨v, hv⟩ := lowercaseChar_eq_singleton hydotted
      have hne : lowercaseChar y ≠ lowercaseChar c := fun he => hyc (halone y he)
      rw [hu, hv] at hne ⊢
      exact Or.inr fun huv => hne (by rw [huv])
  · have hback := uppercase_images.1 e he
    rwa [← hc, Char.ofNat_toNat, ← hexp] at hback

/-- The lower case of what a character becomes in upper case, between two texts that are in upper case as well. -/
def recasedAt (before : List Char) (c : Char) (after : List Char) : List Char :=
  if IsSigma c then
    [if endsWord (before.flatMap fun d => (uppercaseChar d).reverse) (after.flatMap uppercaseChar) then 'ς' else 'σ']
  else (uppercaseChar c).flatMap lowercaseChar

theorem lowercaseFrom_append_of_not_mem {u : List Char} (h : 'Σ' ∉ u) (before rest : List Char) :
    lowercaseFrom before (u ++ rest) = u.flatMap lowercaseChar ++ lowercaseFrom (u.reverse ++ before) rest := by
  induction u generalizing before with
  | nil => rfl
  | cons c u ih =>
    rw [List.mem_cons, not_or] at h
    rw [List.cons_append, lowercaseFrom, if_neg (Ne.symm h.1), ih h.2, List.flatMap_cons, List.append_assoc,
      List.reverse_cons, List.append_assoc]
    rfl

theorem lowercaseFrom_uppercase (before cs : List Char) :
    lowercaseFrom (before.flatMap fun d => (uppercaseChar d).reverse) (cs.flatMap uppercaseChar) =
      imagesInPlace recasedAt before cs := by
  induction cs generalizing before with
  | nil => rfl
  | cons c cs ih =>
    have hrest := ih (c :: before)
    rw [List.flatMap_cons] at hrest ⊢
    rw [imagesInPlace, recasedAt]
    by_cases hc : IsSigma c
    · rw [hc.uppercaseChar_eq] at hrest ⊢
      rw [if_pos hc, ← hrest]
      rfl
    · have hsigma : 'Σ' ∉ uppercaseChar c := fun h => hc (isSigma_of_mem_uppercaseChar h)
      rw [if_neg hc, ← hrest, lowercaseFrom_append_of_not_mem hsigma]

theorem lowercaseAt_eq_or_recasedAt_apart (before after before' after' : List Char) (c : Char) :
    lowercaseAt before c after = recasedAt before' c after' ∨
      Apart (lowercaseAt before c after) (recasedAt before' c after') := by
  by_cases hc : IsSigma c
  · have hsingle : ∃ x, lowercaseAt before c after = [x] := by
      unfold lowercaseAt
      split
      · exact ⟨_, rfl⟩
      · refine lowercaseChar_eq_singleton ?_
        rintro rfl
        exact absurd hc (by decide)
    obtain ⟨x, hx⟩ := hsingle
    rw [hx, recasedAt, if_pos hc, List.singleton_inj]
    exact em _
  · have hcapital : c ≠ 'Σ' := fun h => hc (Or.inl h)
    rw [lowercaseAt, if_neg hcapital, recasedAt, if_neg hc]
    exact lowercaseChar_eq_or_apart c

/-- Each character of the first text keeps its lower case when both texts, one behind the other, are put into upper
case. -/
def KeepsLowercase (f t : List Char) : Prop :=
  ∀ a c b, f = a ++ c :: b → lowercaseAt a.reverse c b = recasedAt a.reverse c (b ++ t)

/-- The lower case of a text begins with that of its beginning also by way of upper case, if no character of the
beginning has another lower case then. -/
theorem lowercaseFrom_prefix_uppercase_iff (f t : List Char) :
    lowercaseFrom [] f <+: lowercaseFrom [] ((f ++ t).flatMap uppercaseChar) ↔ KeepsLowercase f t := by
  have hupper := lowercaseFrom_uppercase [] (f ++ t)
  rw [List.flatMap_nil] at hupper
  rw [hupper, lowercaseFrom_eq, imagesInPlace_append,
    imagesInPlace_prefix_iff fun before c after => lowercaseAt_eq_or_recasedAt_apart before after before (after ++ t) c]
  simp only [List.append_nil]
  rfl

/-- A letter that keeps its lower case in upper case, whatever stands around it. -/
def ComesBack (c : Char) : Prop := ¬ IsSigma c ∧ lowercaseChar c = (uppercaseChar c).flatMap lowercaseChar

instance (c : Char) : Decidable (ComesBack c) := inferInstanceAs (Decidable (_ ∧ _))

theorem comesBack_of_ascii (h : c.toNat < 128) : ComesBack c := by
  have hascii : ∀ code < 128, ComesBack (Char.ofNat code) := by decide +kernel
  have hc := hascii c.toNat h
  rwa [Char.ofNat_toNat] at hc

theorem keepsLowercase_of_comesBack (h : ∀ c ∈ f, ComesBack c) : KeepsLowercase f t := by
  rintro a c b rfl
  obtain ⟨hc, hback⟩ := h c (List.mem_append_right a List.mem_cons_self)
  have hcapital : c ≠ 'Σ' := fun h => hc (Or.inl h)
  rw [lowercaseAt, if_neg hcapital, recasedAt, if_neg hc, hback]

theorem not_sigmaRunsOn_of_comesBack (h : ∀ c ∈ f, ComesBack c) : ¬ SigmaRunsOn f t := by
  rintro ⟨a, b, rfl, -⟩
  exact (h 'Σ' (List.mem_append_right a List.mem_cons_self)).1 (Or.inl rfl)

end Typeahead.Text
