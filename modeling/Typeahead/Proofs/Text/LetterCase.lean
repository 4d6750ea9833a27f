import Typeahead.Text.CharSet

/-!
# Letters in either case

A character is its own image, or its image stands in a run of the table or among the longer ones
(`uppercaseChar_cases`, `lowercaseChar_cases`).  Mapping a letter to the other case leads back: its single image has the
case images of the letter itself, or else the letter agrees with no other one (`caseImage_back`).  So a set that holds a
letter in either case holds its single images as well (`contains_uppercaseChar`, `contains_lowercaseChar`), and
characters that are not letters have no other image (`uppercaseChar_of_not_isAlphabetic`,
`lowercaseChar_of_not_isAlphabetic`).

The tables are checked run by run, not code point by code point: a run of letters stands inside one run of the other
table (`CaseRun.around?`), or between two of them (`CaseRun.passes`).
-/

namespace Typeahead.Text

variable {runs : List CaseRun} {r : CaseRun} {code lo hi : Nat}

/-! ### Runs -/

theorem exists_run_of_image? {image : Nat} (h : CaseRun.image? runs code = some image) :
    ∃ r ∈ runs, ∃ k, k ≤ r.last - r.first ∧ k % r.stride = 0 ∧ code = r.first + k ∧ image = r.image + k := by
  induction runs with
  | nil => cases h
  | cons r rs ih =>
    rw [CaseRun.image?] at h
    split at h
    · cases h
    · split at h
      · split at h
        · rename_i hfirst hlast hstride
          cases h
          exact ⟨r, List.mem_cons_self .., code - r.first, by omega, hstride, by omega, rfl⟩
        · cases h
      · obtain ⟨r', hr', h⟩ := ih h
        exact ⟨r', List.mem_cons_of_mem _ hr', h⟩

/-- The run in whose span all code points from `lo` to `hi` stand. -/
def CaseRun.around? : List CaseRun → Nat → Nat → Option CaseRun
  | [], _, _ => none
  | r :: rs, lo, hi =>
    bif Nat.blt lo r.first then none
    else bif Nat.ble hi r.last then some r
    else bif Nat.blt r.last lo then around? rs lo hi
    else none

/-- Every `stride`-th code point from `lo` to `hi` stands between the runs, or is passed over by one of them. -/
def CaseRun.passes : List CaseRun → Nat → Nat → Nat → Bool
  | [], _, _, _ => true
  | r :: rs, lo, hi, stride =>
    Nat.blt hi r.first ||
      ((Nat.blt r.last lo ||
          (Nat.beq r.stride 2 && (Nat.beq stride 2 || Nat.beq lo hi) && Nat.beq ((r.first + lo) % 2) 1)) &&
        passes rs lo hi stride)

theorem first_le_of_around? (h : CaseRun.around? runs lo hi = some r) : r.first ≤ lo := by
  induction runs with
  | nil => cases h
  | cons r' rs ih =>
    simp only [CaseRun.around?, Bool.cond_eq_ite, Nat.blt_eq] at h
    split at h
    · cases h
    · split at h
      · cases h
        omega
      · split at h
        · exact ih h
        · cases h

theorem image?_of_around? (h : CaseRun.around? runs lo hi = some r) (hlo : lo ≤ code) (hhi : code ≤ hi)
    (hstride : (code - r.first) % r.stride = 0) :
    CaseRun.image? runs code = some (r.image + (code - r.first)) := by
  induction runs with
  | nil => cases h
  | cons r' rs ih =>
    rw [CaseRun.image?]
    simp only [CaseRun.around?, Bool.cond_eq_ite, Nat.blt_eq, Nat.ble_eq] at h
    split at h
    · cases h
    · split at h
      · cases h
        rw [if_neg (by omega), if_pos (by omega), if_pos hstride]
      · split at h
        · rw [if_neg (by omega), if_neg (by omega)]
          exact ih h
        · cases h

theorem image?_of_passes {stride k : Nat} (h : CaseRun.passes runs lo hi stride = true) (hk : k ≤ hi - lo)
    (hle : lo ≤ hi) (hstride : k % stride = 0) : CaseRun.image? runs (lo + k) = none := by
  induction runs with
  | nil => rfl
  | cons r rs ih =>
    rw [CaseRun.image?]
    simp only [CaseRun.passes, Bool.and_eq_true, Bool.or_eq_true, Nat.blt_eq, Nat.beq_eq] at h
    rcases h with h | ⟨hpass, hrest⟩
    · rw [if_pos (by omega)]
    · split
      · rfl
      · split
        · rcases hpass with hpass | ⟨⟨hr, rfl | rfl⟩, hparity⟩
          · omega
          · rw [hr, if_neg (by omega)]
          · rw [hr, if_neg (by omega)]
        · exact ih hrest

/-! ### Images -/

variable {expansions : List (Nat × List Nat)} {c x y : Char}

/-- None of the code points from `lo` to `hi` has a longer image. -/
def unexpanded (expansions : List (Nat × List Nat)) (lo hi : Nat) : Bool :=
  expansions.all fun e => Nat.blt e.1 lo || Nat.blt hi e.1

theorem lookup_of_unexpanded (h : unexpanded expansions lo hi = true) (code : Nat) (hlo : lo ≤ code)
    (hhi : code ≤ hi) : expansions.lookup code = none := by
  rw [List.lookup_eq_none_iff]
  intro e he
  have hne := List.all_eq_true.1 h e he
  simp only [Bool.or_eq_true, Nat.blt_eq] at hne
  rw [bne_iff_ne]
  omega

theorem caseImage_of_unexpanded (h : expansions.lookup c.toNat = none) :
    caseImage runs expansions c = [Char.ofNat ((CaseRun.image? runs c.toNat).getD c.toNat)] := by
  unfold caseImage
  cases CaseRun.image? runs c.toNat with
  | some code => rfl
  | none => simp [h]

/-- The last image of a run. -/
def CaseRun.lastImage (r : CaseRun) : Nat := r.image + (r.last - r.first)

/-- All images of the run are characters. -/
def CaseRun.mapsToChars (r : CaseRun) : Bool :=
  Nat.blt r.lastImage 0xD800 || (Nat.blt 0xDFFF r.image && Nat.blt r.lastImage 0x110000)

/-- The run holds the letter `x` and maps it to `y`. -/
def CaseRun.Maps (r : CaseRun) (x y : Char) : Prop :=
  ∃ k, k ≤ r.last - r.first ∧ k % r.stride = 0 ∧ x.toNat = r.first + k ∧ y.toNat = r.image + k

theorem CaseRun.Maps.image_le (h : r.Maps x y) : r.image ≤ y.toNat ∧ y.toNat ≤ r.lastImage := by
  obtain ⟨k, hk, -, -, hy⟩ := h
  unfold CaseRun.lastImage
  omega

private theorem toNat_image {k : Nat} (h : r.mapsToChars = true) (hk : k ≤ r.last - r.first) :
    (Char.ofNat (r.image + k)).toNat = r.image + k := by
  have hvalid : (r.image + k).isValidChar := by
    simp only [CaseRun.mapsToChars, CaseRun.lastImage, Bool.or_eq_true, Bool.and_eq_true, Nat.blt_eq] at h
    unfold Nat.isValidChar
    omega
  rw [Char.ofNat, dif_pos hvalid]
  rfl

/-- A character that the runs pass over and that has no longer image is its own image. -/
theorem caseImage_of_passes {stride k : Nat} (hpass : CaseRun.passes runs lo hi stride = true)
    (hexp : unexpanded expansions lo hi = true) (hle : lo ≤ hi) (hk : k ≤ hi - lo) (hstride : k % stride = 0)
    (hc : c.toNat = lo + k) : caseImage runs expansions c = [c] := by
  rw [caseImage_of_unexpanded (lookup_of_unexpanded hexp c.toNat (by omega) (by omega)), hc,
    image?_of_passes hpass hk hle hstride, Option.getD_none, ← hc, Char.ofNat_toNat]

/-- A character is its own image, or its image is that of a run or an expansion. -/
theorem caseImage_cases (hchars : ∀ r ∈ runs, r.mapsToChars = true) (expansions : List (Nat × List Nat)) (c : Char) :
    caseImage runs expansions c = [c] ∨
      (∃ r ∈ runs, ∃ y, r.Maps c y ∧ caseImage runs expansions c = [y]) ∨
      ∃ e ∈ expansions, c.toNat = e.1 ∧ caseImage runs expansions c = e.2.map Char.ofNat := by
  unfold caseImage
  split
  · rename_i code hcode
    obtain ⟨r, hr, k, hk, hstride, hc, rfl⟩ := exists_run_of_image? hcode
    exact Or.inr (Or.inl ⟨r, hr, _, ⟨k, hk, hstride, hc, toNat_image (hchars r hr) hk⟩, rfl⟩)
  · split
    · exact Or.inl rfl
    · split
      · rename_i codes hcodes
        obtain ⟨l₁, l₂, rfl, -⟩ := List.lookup_eq_some_iff.1 hcodes
        exact Or.inr (Or.inr ⟨(c.toNat, codes), by simp, rfl, rfl⟩)
      · exact Or.inl rfl

/-- A single image is that of a run, or the character itself. -/
theorem eq_or_maps_of_caseImage (hchars : ∀ r ∈ runs, r.mapsToChars = true) (he : ∀ e ∈ expansions, e.2.length ≠ 1)
    (h : caseImage runs expansions c = [y]) : y = c ∨ ∃ r ∈ runs, r.Maps c y := by
  rcases caseImage_cases hchars expansions c with hself | ⟨r, hr, y', hmaps, hrun⟩ | ⟨e, hmem, -, hexp⟩
  · exact Or.inl (List.singleton_inj.1 (h.symm.trans hself))
  · obtain rfl := List.singleton_inj.1 (h.symm.trans hrun)
    exact Or.inr ⟨r, hr, hmaps⟩
  · have hlen := congrArg List.length (h.symm.trans hexp)
    rw [List.length_map, List.length_singleton] at hlen
    exact absurd hlen.symm (he e hmem)

/-! ### Leading back -/

/-- The other table maps the letters of the run to themselves and their images back to them. -/
def CaseRun.leadsBack (runs : List CaseRun) (expansions : List (Nat × List Nat)) (r : CaseRun) : Bool :=
  passes runs r.first r.last r.stride && unexpanded expansions r.first r.last &&
    unexpanded expansions r.image r.lastImage &&
    match around? runs r.image r.lastImage with
    | none => false
    | some back => Nat.beq ((r.image - back.first) % back.stride) 0 &&
        Nat.beq (back.image + (r.image - back.first)) r.first &&
        (Nat.beq back.stride 1 || Nat.beq back.stride r.stride)

/-- The other table maps the letters of the run to themselves and nothing else to them; their own table maps the images
to themselves. -/
def CaseRun.standsAlone (own runs : List CaseRun) (ownExpansions expansions : List (Nat × List Nat)) (r : CaseRun) :
    Bool :=
  passes runs r.first r.last r.stride && unexpanded expansions r.first r.last &&
    (runs.all fun other => Nat.blt r.last other.image || Nat.blt other.lastImage r.first) &&
    passes own r.image r.lastImage r.stride && unexpanded ownExpansions r.image r.lastImage

/-- The other table maps letters and images alike. -/
def CaseRun.agrees (runs : List CaseRun) (expansions : List (Nat × List Nat)) (r : CaseRun) : Bool :=
  (List.range (r.last - r.first + 1)).all fun k =>
    !Nat.beq (k % r.stride) 0 ||
      caseImage runs expansions (Char.ofNat (r.image + k)) == caseImage runs expansions (Char.ofNat (r.first + k))

/-- The check of a table: from the images of its runs the other table leads back. -/
def tableLeadsBack (own runs : List CaseRun) (ownExpansions expansions : List (Nat × List Nat)) : Bool :=
  own.all fun r => Nat.ble r.first r.last && r.mapsToChars &&
    (r.leadsBack runs expansions || r.standsAlone own runs ownExpansions expansions || r.agrees runs expansions)

section Back

variable {own : List CaseRun} {ownExpansions : List (Nat × List Nat)}

/-- A letter of a run that leads back. -/
theorem caseImage_of_leadsBack (h : r.leadsBack runs expansions = true) (hle : r.first ≤ r.last)
    (hmaps : r.Maps x y) : caseImage runs expansions y = caseImage runs expansions x := by
  obtain ⟨k, hk, hstride, hx, hy⟩ := hmaps
  simp only [CaseRun.leadsBack, Bool.and_eq_true] at h
  obtain ⟨⟨⟨hpass, hexp⟩, hexp'⟩, hback⟩ := h
  split at hback
  · cases hback
  rename_i back haround
  simp only [Bool.and_eq_true, Bool.or_eq_true, Nat.beq_eq] at hback
  obtain ⟨⟨hmod, himage⟩, hstep⟩ := hback
  have hfirst := first_le_of_around? haround
  have hlast : r.image + k ≤ r.lastImage := Nat.add_le_add_left hk _
  have hdvd : (r.image + k - back.first) % back.stride = 0 := by
    rcases hstep with hstep | hstep
    · rw [hstep, Nat.mod_one]
    · rw [Nat.sub_add_comm hfirst, Nat.add_mod, hmod, hstep, hstride]
      simp
  -- the letter is mapped to itself, the image back to the letter
  have hy' := image?_of_around? haround (Nat.le_add_right r.image k) hlast hdvd
  have hback : back.image + (r.image + k - back.first) = x.toNat := by omega
  rw [caseImage_of_passes hpass hexp hle hk hstride hx,
    caseImage_of_unexpanded (lookup_of_unexpanded hexp' y.toNat (by omega) (by omega)), hy, hy', Option.getD_some,
    hback, Char.ofNat_toNat]

/-- A letter of a run that stands alone. -/
theorem caseImage_of_standsAlone (hchars : ∀ other ∈ runs, other.mapsToChars = true)
    (he : ∀ e ∈ expansions, e.2.length ≠ 1) (h : r.standsAlone own runs ownExpansions expansions = true)
    (hle : r.first ≤ r.last) (hmaps : r.Maps x y) :
    caseImage own ownExpansions y = [y] ∧
      ∀ d, caseImage runs expansions d = caseImage runs expansions x → d = x := by
  obtain ⟨k, hk, hstride, hx, hy⟩ := hmaps
  simp only [CaseRun.standsAlone, Bool.and_eq_true] at h
  obtain ⟨⟨⟨⟨hpass, hexp⟩, hothers⟩, hpass'⟩, hexp'⟩ := h
  have hlen : r.lastImage - r.image = r.last - r.first := Nat.add_sub_cancel_left ..
  refine ⟨?_, fun d hd => ?_⟩
  · exact caseImage_of_passes hpass' hexp' (Nat.le_add_right ..) (hlen ▸ hk) hstride hy
  · rw [caseImage_of_passes hpass hexp hle hk hstride hx] at hd
    rcases eq_or_maps_of_caseImage hchars he hd with hd | ⟨other, hother, hmaps⟩
    · exact hd.symm
    · -- a run that leads to the letter is excluded
      have himage := hmaps.image_le
      have hapart := List.all_eq_true.1 hothers other hother
      simp only [Bool.or_eq_true, Nat.blt_eq] at hapart
      omega

/-- From the image of a letter the other table leads to where it leads from the letter, or else the letter agrees with
no other one there, and its image is mapped to itself. -/
theorem caseImage_back (hown : tableLeadsBack own runs ownExpansions expansions = true)
    (hchars : ∀ other ∈ runs, other.mapsToChars = true) (heown : ∀ e ∈ ownExpansions, e.2.length ≠ 1)
    (he : ∀ e ∈ expansions, e.2.length ≠ 1) (h : caseImage own ownExpansions x = [y]) :
    caseImage runs expansions y = caseImage runs expansions x ∨ (caseImage own ownExpansions y = [y] ∧
      ∀ d, caseImage runs expansions d = caseImage runs expansions x → d = x) := by
  have hruns : ∀ r ∈ own, (r.first ≤ r.last ∧ r.mapsToChars = true) ∧ ((r.leadsBack runs expansions = true ∨
      r.standsAlone own runs ownExpansions expansions = true) ∨ r.agrees runs expansions = true) := by
    intro r hr
    have hrun := List.all_eq_true.1 hown r hr
    simpa only [Bool.and_eq_true, Bool.or_eq_true, Nat.ble_eq] using hrun
  rcases eq_or_maps_of_caseImage (fun r hr => (hruns r hr).1.2) heown h with rfl | ⟨r, hr, hmaps⟩
  · exact Or.inl rfl
  obtain ⟨⟨hle, -⟩, (hback | halone) | hagree⟩ := hruns r hr
  · exact Or.inl (caseImage_of_leadsBack hback hle hmaps)
  · exact Or.inr (caseImage_of_standsAlone hchars he halone hle hmaps)
  · obtain ⟨k, hk, hstride, hx, hy⟩ := hmaps
    have hk' := List.all_eq_true.1 hagree k (List.mem_range.2 (Nat.lt_succ_of_le hk))
    rw [hstride, ← hx, ← hy, Char.ofNat_toNat, Char.ofNat_toNat] at hk'
    exact Or.inl (by simpa using hk')

end Back

/-! ### The tables -/

private theorem tables_leadBack :
    tableLeadsBack uppercaseRuns lowercaseRuns uppercaseExpansions lowercaseExpansions = true ∧
      tableLeadsBack lowercaseRuns uppercaseRuns lowercaseExpansions uppercaseExpansions = true := by
  decide +kernel

private theorem length_uppercaseExpansions : ∀ e ∈ uppercaseExpansions, e.2.length ≠ 1 := by
  decide

private theorem length_lowercaseExpansions : ∀ e ∈ lowercaseExpansions, e.2.length ≠ 1 := by
  decide

private theorem runs_mapToChars :
    (∀ r ∈ uppercaseRuns, r.mapsToChars = true) ∧ ∀ r ∈ lowercaseRuns, r.mapsToChars = true := by
  decide +kernel

theorem uppercaseChar_cases (c : Char) :
    uppercaseChar c = [c] ∨ (∃ r ∈ uppercaseRuns, ∃ y, r.Maps c y ∧ uppercaseChar c = [y]) ∨
      ∃ e ∈ uppercaseExpansions, c.toNat = e.1 ∧ uppercaseChar c = e.2.map Char.ofNat :=
  caseImage_cases runs_mapToChars.1 uppercaseExpansions c

theorem lowercaseChar_cases (c : Char) :
    lowercaseChar c = [c] ∨ (∃ r ∈ lowercaseRuns, ∃ y, r.Maps c y ∧ lowercaseChar c = [y]) ∨
      ∃ e ∈ lowercaseExpansions, c.toNat = e.1 ∧ lowercaseChar c = e.2.map Char.ofNat :=
  caseImage_cases runs_mapToChars.2 lowercaseExpansions c

theorem uppercaseChar_back (h : uppercaseChar x = [y]) : lowercaseChar y = lowercaseChar x ∨
    (uppercaseChar y = [y] ∧ ∀ d, lowercaseChar d = lowercaseChar x → d = x) :=
  caseImage_back tables_leadBack.1 runs_mapToChars.2 length_uppercaseExpansions length_lowercaseExpansions h

theorem lowercaseChar_back (h : lowercaseChar x = [y]) : uppercaseChar y = uppercaseChar x ∨
    (lowercaseChar y = [y] ∧ ∀ d, uppercaseChar d = uppercaseChar x → d = x) :=
  caseImage_back tables_leadBack.2 runs_mapToChars.1 length_lowercaseExpansions length_uppercaseExpansions h

/-! ### Sets that hold a letter in either case -/

variable {d : Char}

theorem contains_anyCase_iff : (CharSet.anyCase d).contains x = true ↔
    d = x ∨ lowercaseChar d = lowercaseChar x ∨ uppercaseChar d = uppercaseChar x := by
  simp [CharSet.contains, or_assoc]

/-- Agreeing in one of two cases is kept by mapping to the second. -/
private theorem agrees_image {f g : Char → List Char}
    (hback : ∀ {x y}, g x = [y] → f y = f x ∨ (g y = [y] ∧ ∀ d, f d = f x → d = x)) (hy : g x = [y])
    (h : d = x ∨ f d = f x ∨ g d = g x) : f d = f y ∨ g d = g y := by
  rcases h with rfl | h | h
  · rcases hback hy with hf | ⟨hg, -⟩
    · exact Or.inl hf.symm
    · exact Or.inr (hy.trans hg.symm)
  · rcases hback hy with hf | ⟨hg, halone⟩
    · exact Or.inl (h.trans hf.symm)
    · rw [halone d h]
      exact Or.inr (hy.trans hg.symm)
  · rcases hback (h.trans hy) with hf | ⟨hg, -⟩
    · exact Or.inl hf.symm
    · exact Or.inr ((h.trans hy).trans hg.symm)

theorem contains_uppercaseChar (h : (CharSet.anyCase d).contains x = true) (hy : uppercaseChar x = [y]) :
    (CharSet.anyCase d).contains y = true :=
  contains_anyCase_iff.2 (Or.inr (agrees_image uppercaseChar_back hy (contains_anyCase_iff.1 h)))

theorem contains_lowercaseChar (h : (CharSet.anyCase d).contains x = true) (hy : lowercaseChar x = [y]) :
    (CharSet.anyCase d).contains y = true := by
  have hx := (contains_anyCase_iff.1 h).imp_right Or.symm
  exact contains_anyCase_iff.2 (Or.inr (agrees_image lowercaseChar_back hy hx).symm)

/-! ### Sigmas -/

/-- The capital sigma, the small one, and the small one that ends a word. -/
def IsSigma (c : Char) : Prop := c = 'Σ' ∨ c = 'σ' ∨ c = 'ς'

instance (c : Char) : Decidable (IsSigma c) := inferInstanceAs (Decidable (_ ∨ _))

theorem lowercaseChar_sigma : lowercaseChar 'Σ' = ['σ'] := by
  decide +kernel

theorem IsSigma.uppercaseChar_eq (h : IsSigma c) : uppercaseChar c = ['Σ'] := by
  have hsigmas : uppercaseChar 'Σ' = ['Σ'] ∧ uppercaseChar 'σ' = ['Σ'] ∧ uppercaseChar 'ς' = ['Σ'] := by decide +kernel
  rcases h with rfl | rfl | rfl
  · exact hsigmas.1
  · exact hsigmas.2.1
  · exact hsigmas.2.2

/-- The runs that lead to sigmas start from sigmas, and longer images hold none. -/
private theorem sigma_images :
    (∀ r ∈ lowercaseRuns, 0x3C3 < r.image ∨ r.lastImage < 0x3C3 ∨ (r.first = 0x3A3 ∧ r.image = 0x3C3)) ∧
      (∀ r ∈ uppercaseRuns, 0x3A3 < r.image ∨ r.lastImage < 0x3A3 ∨
        IsSigma (Char.ofNat (r.first + (0x3A3 - r.image)))) ∧
      ∀ e ∈ uppercaseExpansions, 'Σ' ∉ e.2.map Char.ofNat := by
  decide +kernel

/-- Only the capital sigma and the small one itself become the small sigma. -/
theorem eq_sigma_of_lowercaseChar (h : lowercaseChar d = ['σ']) : d = 'σ' ∨ d = 'Σ' := by
  rcases lowercaseChar_cases d with hself | ⟨r, hr, y, hmaps, hrun⟩ | ⟨e, he, -, hexp⟩
  · exact Or.inl (List.singleton_inj.1 (hself.symm.trans h))
  · obtain rfl := List.singleton_inj.1 (hrun.symm.trans h)
    have himage : r.image ≤ 0x3C3 ∧ 0x3C3 ≤ r.lastImage := hmaps.image_le
    rcases sigma_images.1 r hr with hr | hr | ⟨hfirst, hsigma⟩
    · omega
    · omega
    · obtain ⟨k, -, -, hd, hy⟩ := hmaps
      have hy : 0x3C3 = r.image + k := hy
      have hd' : d.toNat = 0x3A3 := by omega
      exact Or.inr (by rw [← Char.ofNat_toNat d, hd'])
  · have hlen := congrArg List.length (hexp.symm.trans h)
    rw [List.length_map] at hlen
    exact absurd hlen (length_lowercaseExpansions e he)

/-- Only sigmas become the capital sigma, alone or with other letters. -/
theorem isSigma_of_mem_uppercaseChar (h : 'Σ' ∈ uppercaseChar c) : IsSigma c := by
  rcases uppercaseChar_cases c with hself | ⟨r, hr, y, hmaps, hrun⟩ | ⟨e, he, -, hexp⟩
  · rw [hself, List.mem_singleton] at h
    exact Or.inl h.symm
  · rw [hrun, List.mem_singleton] at h
    subst h
    have himage : r.image ≤ 0x3A3 ∧ 0x3A3 ≤ r.lastImage := hmaps.image_le
    rcases sigma_images.2.1 r hr with hr | hr | hr
    · omega
    · omega
    · obtain ⟨k, -, -, hc, hy⟩ := hmaps
      have hy : 0x3A3 = r.image + k := hy
      rwa [hy, Nat.add_sub_cancel_left, ← hc, Char.ofNat_toNat] at hr
  · rw [hexp] at h
    exact absurd h (sigma_images.2.2 e he)

/-- A set that holds the capital sigma holds the small one that ends a word. -/
theorem contains_finalSigma (h : (CharSet.anyCase d).contains 'Σ' = true) :
    (CharSet.anyCase d).contains 'ς' = true := by
  have hd : IsSigma d := by
    rcases contains_anyCase_iff.1 h with h | h | h
    · exact Or.inl h
    · rcases eq_sigma_of_lowercaseChar (h.trans lowercaseChar_sigma) with h | h
      · exact Or.inr (Or.inl h)
      · exact Or.inl h
    · rw [IsSigma.uppercaseChar_eq (Or.inl rfl)] at h
      exact isSigma_of_mem_uppercaseChar (h ▸ List.mem_singleton.2 rfl)
  have hfinal : uppercaseChar 'ς' = ['Σ'] := IsSigma.uppercaseChar_eq (Or.inr (Or.inr rfl))
  exact contains_anyCase_iff.2 (Or.inr (Or.inr (hd.uppercaseChar_eq.trans hfinal.symm)))

/-! ### Characters that are not letters -/

/-- Whether one of the ascending ranges covers all code points from `lo` to `hi`. -/
def CodeRange.coversAll : List CodeRange → Nat → Nat → Bool
  | [], _, _ => false
  | r :: rs, lo, hi =>
    !Nat.blt lo r.first && (Nat.ble hi r.last || (Nat.blt r.last lo && coversAll rs lo hi))

theorem covers_of_coversAll {ranges : List CodeRange} (h : CodeRange.coversAll ranges lo hi = true) (hlo : lo ≤ code)
    (hhi : code ≤ hi) : CodeRange.covers ranges code = true := by
  induction ranges with
  | nil => cases h
  | cons r rs ih =>
    simp only [CodeRange.coversAll, Bool.and_eq_true, Bool.or_eq_true, Bool.not_eq_true', ← Bool.not_eq_true,
      Nat.blt_eq, Nat.ble_eq] at h
    rw [CodeRange.covers]
    rcases h with ⟨hfirst, hlast | ⟨hlast, h⟩⟩
    · rw [if_neg (by omega), if_pos (by omega)]
    · rw [if_neg (by omega), if_neg (by omega)]
      exact ih h

/-- All letters of the run are covered, together or one by one. -/
def CaseRun.coveredBy (ranges : List CodeRange) (r : CaseRun) : Bool :=
  CodeRange.coversAll ranges r.first r.last ||
    (List.range (r.last - r.first + 1)).all fun k =>
      !Nat.beq (k % r.stride) 0 || CodeRange.coversAll ranges (r.first + k) (r.first + k)

theorem CaseRun.covers_of_coveredBy {ranges : List CodeRange} {k : Nat} (h : r.coveredBy ranges = true)
    (hle : r.first ≤ r.last) (hk : k ≤ r.last - r.first) (hstride : k % r.stride = 0) :
    CodeRange.covers ranges (r.first + k) = true := by
  rcases Bool.or_eq_true_iff.1 h with h | h
  · exact covers_of_coversAll h (by omega) (by omega)
  · have hk' := List.all_eq_true.1 h k (List.mem_range.2 (Nat.lt_succ_of_le hk))
    rw [hstride] at hk'
    exact covers_of_coversAll hk' (Nat.le_refl _) (Nat.le_refl _)

/-- The check of a table: all that it maps are letters. -/
def tableAlphabetic (runs : List CaseRun) (expansions : List (Nat × List Nat)) : Bool :=
  (runs.all fun r => Nat.ble r.first r.last && r.coveredBy alphabeticRanges) &&
    expansions.all fun e => CodeRange.coversAll alphabeticRanges e.1 e.1

theorem caseImage_of_not_isAlphabetic (hchars : ∀ r ∈ runs, r.mapsToChars = true)
    (h : tableAlphabetic runs expansions = true) (hc : isAlphabetic c = false) : caseImage runs expansions c = [c] := by
  simp only [tableAlphabetic, Bool.and_eq_true, List.all_eq_true, Nat.ble_eq] at h
  unfold isAlphabetic at hc
  rcases caseImage_cases hchars expansions c with
    hself | ⟨r, hr, -, ⟨k, hk, hstride, hcode, -⟩, -⟩ | ⟨e, he, hcode, -⟩
  · exact hself
  · obtain ⟨hle, hcovered⟩ := h.1 r hr
    rw [hcode, r.covers_of_coveredBy hcovered hle hk hstride] at hc
    cases hc
  · rw [covers_of_coversAll (h.2 e he) (Nat.le_of_eq hcode.symm) (Nat.le_of_eq hcode)] at hc
    cases hc

private theorem tables_alphabetic :
    tableAlphabetic uppercaseRuns uppercaseExpansions = true ∧
      tableAlphabetic lowercaseRuns lowercaseExpansions = true := by
  decide +kernel

theorem uppercaseChar_of_not_isAlphabetic (h : isAlphabetic c = false) : uppercaseChar c = [c] :=
  caseImage_of_not_isAlphabetic runs_mapToChars.1 tables_alphabetic.1 h

theorem lowercaseChar_of_not_isAlphabetic (h : isAlphabetic c = false) : lowercaseChar c = [c] :=
  caseImage_of_not_isAlphabetic runs_mapToChars.2 tables_alphabetic.2 h

end Typeahead.Text
