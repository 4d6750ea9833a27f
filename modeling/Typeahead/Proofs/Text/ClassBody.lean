import Mathlib.Algebra.Ring.Parity
import Typeahead.Proofs.Except
import Typeahead.Text.CharSet

/-!
# Class bodies

A class body is read in two steps.  Its escapes are decoded (`classItems_eq_ok_iff`), which fails just if the body ends
in a backslash of its own (`classItems_eq_error_iff`), and what is left is grouped from the left (`Groups`), in just one
way (`groups_unique`).  So the ranges of a class body are those of its grouping, unless one of them is reversed, and
ranges that are written into a body are read back (`classRanges_exact`).
-/

namespace Typeahead.Text

variable {c : Char} {cs : List Char} {item : ClassItem} {items : List ClassItem} {rs : List CharRange} {e : ClassError}

/-! ### Escapes -/

/-- The items of a class body: a backslash and the character behind it stand for one character, all others for
themselves. -/
inductive Decodes : List Char → List ClassItem → Prop where
  | nil : Decodes [] []
  | plain {c : Char} {cs : List Char} {items : List ClassItem} (hc : c ≠ '\\') (h : Decodes cs items) :
    Decodes (c :: cs) (⟨c, false⟩ :: items)
  | escape {c : Char} {cs : List Char} {items : List ClassItem} (h : Decodes cs items) :
    Decodes ('\\' :: c :: cs) (⟨unescape c, true⟩ :: items)

/-- The text ends in a backslash that is not escaped itself: there are an odd number of them at the end. -/
def EndsUnpaired (cs : List Char) : Prop := Odd (cs.reverse.takeWhile (· = '\\')).length

instance (cs : List Char) : Decidable (EndsUnpaired cs) := inferInstanceAs (Decidable (Odd _))

/-- Only if all that follows is backslashes does the first character count. -/
private theorem takeWhile_reverse_cons (c : Char) (cs : List Char) :
    ((c :: cs).reverse.takeWhile (· = '\\')).length =
      if (cs.reverse.takeWhile (· = '\\')).length = cs.length then cs.length + (if c = '\\' then 1 else 0)
      else (cs.reverse.takeWhile (· = '\\')).length := by
  rw [List.reverse_cons, List.takeWhile_append, List.length_reverse]
  split
  · by_cases hc : c = '\\' <;> simp [hc]
  · rfl

theorem endsUnpaired_cons_iff (hc : c ≠ '\\') : EndsUnpaired (c :: cs) ↔ EndsUnpaired cs := by
  unfold EndsUnpaired
  rw [takeWhile_reverse_cons, if_neg hc]
  split
  · rename_i hall
    rw [hall, Nat.add_zero]
  · rfl

theorem endsUnpaired_escape_iff : EndsUnpaired ('\\' :: c :: cs) ↔ EndsUnpaired cs := by
  unfold EndsUnpaired
  rw [takeWhile_reverse_cons, takeWhile_reverse_cons, if_pos rfl, List.length_cons]
  have hle := (List.takeWhile_prefix (l := cs.reverse) (· = '\\')).length_le
  rw [List.length_reverse] at hle
  simp only [Nat.odd_iff]
  split_ifs <;> omega

theorem Decodes.not_endsUnpaired (h : Decodes cs items) : ¬ EndsUnpaired cs := by
  induction h with
  | nil => decide
  | plain hc _ ih => rwa [endsUnpaired_cons_iff hc]
  | escape _ ih => rwa [endsUnpaired_escape_iff]

theorem classItems_cons (hc : c ≠ '\\') (cs : List Char) :
    classItems (c :: cs) = (classItems cs).map (⟨c, false⟩ :: ·) := by
  rw [classItems.eq_def]
  split
  · rename_i h
    cases h
  · rename_i h
    exact absurd (List.cons.inj h).1 hc
  · rename_i h
    exact absurd (List.cons.inj h).1 hc
  · rename_i h
    cases h
    rfl

theorem Decodes.classItems_eq (h : Decodes cs items) : classItems cs = .ok items := by
  induction h with
  | nil => rfl
  | plain hc _ ih =>
    rw [classItems_cons hc, ih]
    rfl
  | escape _ ih =>
    rw [classItems, ih]
    rfl

/-- A text has items, unless it ends in a backslash of its own. -/
private theorem classItems_cases (cs : List Char) :
    (∃ items, classItems cs = .ok items ∧ Decodes cs items) ∨
      classItems cs = .error .danglingEscape ∧ EndsUnpaired cs := by
  fun_induction classItems cs with
  | case1 => exact Or.inl ⟨[], rfl, .nil⟩
  | case2 => exact Or.inr ⟨rfl, by decide⟩
  | case3 c rest ih =>
    rcases ih with ⟨items, hitems, h⟩ | ⟨herror, h⟩
    · exact Or.inl ⟨_, by rw [hitems]; rfl, .escape h⟩
    · exact Or.inr ⟨by rw [herror]; rfl, endsUnpaired_escape_iff.2 h⟩
  | case4 c rest hlast hescape ih =>
    have hc : c ≠ '\\' := by
      rintro rfl
      cases rest with
      | nil => exact hlast rfl rfl
      | cons c rest => exact hescape c rest rfl rfl
    rcases ih with ⟨items, hitems, h⟩ | ⟨herror, h⟩
    · exact Or.inl ⟨_, by rw [hitems]; rfl, .plain hc h⟩
    · exact Or.inr ⟨by rw [herror]; rfl, (endsUnpaired_cons_iff hc).2 h⟩

theorem classItems_eq_ok_iff : classItems cs = .ok items ↔ Decodes cs items := by
  refine ⟨fun h => ?_, Decodes.classItems_eq⟩
  rcases classItems_cases cs with ⟨items', hitems, hdecodes⟩ | ⟨herror, -⟩
  · cases hitems.symm.trans h
    exact hdecodes
  · cases herror.symm.trans h

theorem classItems_eq_error_iff : classItems cs = .error e ↔ e = .danglingEscape ∧ EndsUnpaired cs := by
  rcases classItems_cases cs with ⟨items, hitems, hdecodes⟩ | ⟨herror, hends⟩
  · rw [hitems]
    exact ⟨nofun, fun h => absurd h.2 hdecodes.not_endsUnpaired⟩
  · rw [herror, Except.error.injEq]
    exact ⟨fun h => ⟨h.symm, hends⟩, fun h => h.1.symm⟩

/-! ### Ranges -/

/-- The ranges of items, grouped from the left: three items with an unescaped dash in the middle make a range, wherever
there is a third one, and each other item makes one of its own.  A range may be reversed. -/
inductive Groups : List ClassItem → List CharRange → Prop where
  | nil : Groups [] []
  | range {a b : ClassItem} {items : List ClassItem} {rs : List CharRange} (h : Groups items rs) :
    Groups (a :: ⟨'-', false⟩ :: b :: items) (⟨a.char, b.char⟩ :: rs)
  | single {a : ClassItem} {items : List ClassItem} {rs : List CharRange}
    (hdash : ∀ b rest, items ≠ ⟨'-', false⟩ :: b :: rest) (h : Groups items rs) :
    Groups (a :: items) (⟨a.char, a.char⟩ :: rs)

theorem exists_groups (items : List ClassItem) : ∃ rs, Groups items rs := by
  match items with
  | [] => exact ⟨[], .nil⟩
  | [a] => exact ⟨_, .single nofun .nil⟩
  | [a, b] => exact ⟨_, .single nofun (.single nofun .nil)⟩
  | a :: d :: b :: items =>
    by_cases hd : d = ⟨'-', false⟩
    · subst hd
      obtain ⟨rs, h⟩ := exists_groups items
      exact ⟨_, .range h⟩
    · obtain ⟨rs, h⟩ := exists_groups (d :: b :: items)
      exact ⟨_, .single (fun _ _ he => hd (List.cons.inj he).1) h⟩

theorem groups_unique {rs' : List CharRange} (h : Groups items rs) (h' : Groups items rs') : rs = rs' := by
  induction h generalizing rs' with
  | nil =>
    cases h'
    rfl
  | range _ ih =>
    cases h' with
    | range h' => rw [ih h']
    | single hdash _ => exact absurd rfl (hdash _ _)
  | single hdash _ ih =>
    cases h' with
    | range _ => exact absurd rfl (hdash _ _)
    | single _ h' => rw [ih h']

/-- The ranges of the grouping, unless one of them is reversed. -/
theorem Groups.groupItems_eq (h : Groups items rs) :
    groupItems items = if ∀ r ∈ rs, r.lo ≤ r.hi then .ok rs else .error .reversedRange := by
  induction h with
  | nil => rfl
  | @range a b items rs _ ih =>
    rw [groupItems, ih]
    by_cases hab : b.char < a.char
    · rw [if_pos hab, if_neg]
      exact fun hle => Char.not_lt.2 (hle _ (List.mem_cons_self ..)) hab
    · rw [if_neg hab]
      simp only [List.forall_mem_cons, Char.not_lt.1 hab, true_and]
      split <;> rfl
  | @single a items rs hdash _ ih =>
    rw [groupItems.eq_3 a items hdash, ih]
    simp only [List.forall_mem_cons, Char.le_refl, true_and]
    split <;> rfl

/-- The ranges that a class body describes: its escapes are decoded, and then its items grouped. -/
def Describes (body : String) (rs : List CharRange) : Prop :=
  ∃ items, Decodes body.toList items ∧ Groups items rs

theorem Describes.unique {body : String} {rs' : List CharRange} (h : Describes body rs) (h' : Describes body rs') :
    rs = rs' := by
  obtain ⟨items, hitems, hgroups⟩ := h
  obtain ⟨items', hitems', hgroups'⟩ := h'
  cases hitems.classItems_eq.symm.trans hitems'.classItems_eq
  exact groups_unique hgroups hgroups'

theorem exists_describes {body : String} (h : ¬ EndsUnpaired body.toList) : ∃ rs, Describes body rs := by
  cases hread : classItems body.toList with
  | ok items =>
    obtain ⟨rs, hrs⟩ := exists_groups items
    exact ⟨rs, items, classItems_eq_ok_iff.1 hread, hrs⟩
  | error e => exact absurd (classItems_eq_error_iff.1 hread).2 h

theorem Describes.not_endsUnpaired {body : String} (h : Describes body rs) : ¬ EndsUnpaired body.toList := by
  obtain ⟨items, hitems, -⟩ := h
  exact hitems.not_endsUnpaired

theorem describes_empty_iff : Describes "" rs ↔ rs = [] := by
  have hnil : Describes "" [] := ⟨[], .nil, .nil⟩
  exact ⟨fun h => h.unique hnil, fun h => h ▸ hnil⟩

theorem Describes.classRanges_eq {body : String} (h : Describes body rs) (hne : body ≠ "") :
    classRanges body = if ∀ r ∈ rs, r.lo ≤ r.hi then .ok rs else .error .reversedRange := by
  obtain ⟨items, hitems, hgroups⟩ := h
  have hcons : items ≠ [] := by
    rintro rfl
    generalize hcs : body.toList = cs at hitems
    cases hitems
    exact hne (String.toList_eq_nil_iff.1 hcs)
  rw [classRanges, hitems.classItems_eq]
  cases items with
  | nil => exact absurd rfl hcons
  | cons item items => exact hgroups.groupItems_eq

theorem classRanges_of_endsUnpaired {body : String} (h : EndsUnpaired body.toList) :
    classRanges body = .error .danglingEscape := by
  rw [classRanges, classItems_eq_error_iff.2 ⟨rfl, h⟩]

/-! ### Writing ranges -/

/-- A bound of a range in a class body: a backslash and a dash are escaped. -/
def boundSpelling (c : Char) : List Char := if c = '\\' ∨ c = '-' then ['\\', c] else [c]

/-- A range in a class body: its bounds with a dash between them, or its only character. -/
def CharRange.spelling (r : CharRange) : List Char :=
  if r.lo = r.hi then boundSpelling r.lo else boundSpelling r.lo ++ '-' :: boundSpelling r.hi

/-- The class body that lists the ranges one after the other. -/
def classBody (rs : List CharRange) : String := String.ofList (rs.flatMap CharRange.spelling)

/-- What a bound is read as. -/
private def boundItem (c : Char) : ClassItem := ⟨c, c = '\\' ∨ c = '-'⟩

private theorem boundItem_ne (c : Char) : boundItem c ≠ ⟨'-', false⟩ := by
  intro h
  obtain ⟨rfl, hescaped⟩ := ClassItem.mk.inj h
  exact absurd hescaped (by decide)

/-- What a range is read as. -/
private def itemsOf (r : CharRange) : List ClassItem :=
  if r.lo = r.hi then [boundItem r.lo] else [boundItem r.lo, ⟨'-', false⟩, boundItem r.hi]

private theorem Decodes.bound (h : Decodes cs items) (c : Char) :
    Decodes (boundSpelling c ++ cs) (boundItem c :: items) := by
  unfold boundSpelling boundItem
  by_cases hc : c = '\\' ∨ c = '-'
  · have hunescape : unescape c = c := by
      rcases hc with rfl | rfl <;> rfl
    simpa [hc, hunescape] using h.escape (c := c)
  · simpa [hc] using h.plain (not_or.1 hc).1

private theorem decodes_spellings (rs : List CharRange) :
    Decodes (rs.flatMap CharRange.spelling) (rs.flatMap itemsOf) := by
  induction rs with
  | nil => exact .nil
  | cons r rs ih =>
    rw [List.flatMap_cons, List.flatMap_cons, CharRange.spelling, itemsOf]
    split
    · exact ih.bound r.lo
    · rw [List.append_assoc]
      exact ((ih.bound r.hi).plain (by decide)).bound r.lo

private theorem groups_items (rs : List CharRange) : Groups (rs.flatMap itemsOf) rs := by
  induction rs with
  | nil => exact .nil
  | cons r rs ih =>
    rw [List.flatMap_cons, itemsOf]
    split
    · rename_i heq
      obtain ⟨lo, hi⟩ := r
      obtain rfl : lo = hi := heq
      refine .single (fun b rest he => ?_) ih
      -- what follows begins with a bound
      cases rs with
      | nil => cases he
      | cons r rs =>
        rw [List.flatMap_cons, itemsOf] at he
        split at he
        · exact boundItem_ne _ (List.cons.inj he).1
        · exact boundItem_ne _ (List.cons.inj he).1
    · exact .range ih

theorem describes_classBody (rs : List CharRange) : Describes (classBody rs) rs := by
  refine ⟨_, ?_, groups_items rs⟩
  rw [classBody, String.toList_ofList]
  exact decodes_spellings rs

theorem classBody_ne_empty (h : rs ≠ []) : classBody rs ≠ "" := by
  intro hempty
  have hdescribes := describes_classBody rs
  rw [hempty] at hdescribes
  exact h (describes_empty_iff.1 hdescribes)

private theorem condition_cases (body : String) :
    body = "" ∨ EndsUnpaired body.toList ∨ (∃ rs, Describes body rs ∧ ∃ r ∈ rs, r.hi < r.lo) ∨
      ∃ rs, body ≠ "" ∧ Describes body rs ∧ ∀ r ∈ rs, r.lo ≤ r.hi := by
  by_cases hempty : body = ""
  · exact Or.inl hempty
  by_cases hends : EndsUnpaired body.toList
  · exact Or.inr (Or.inl hends)
  obtain ⟨rs, hrs⟩ := exists_describes hends
  by_cases hle : ∀ r ∈ rs, r.lo ≤ r.hi
  · exact Or.inr (Or.inr (Or.inr ⟨rs, hempty, hrs, hle⟩))
  · exact Or.inr (Or.inr (Or.inl ⟨rs, hrs, by simpa using hle⟩))

/-- Ranges that are written into a class body are read back.  A class body has an error just if it is empty, ends in a
backslash of its own or describes a reversed range, and the error tells which; each other one has the ranges that it
describes. -/
theorem classRanges_exact :
    (∀ rs : List CharRange, rs ≠ [] → (∀ r ∈ rs, r.lo ≤ r.hi) → classRanges (classBody rs) = .ok rs) ∧
    ∀ body : String,
      (classRanges body = .error .empty ↔ body = "") ∧
      (classRanges body = .error .danglingEscape ↔ EndsUnpaired body.toList) ∧
      (classRanges body = .error .reversedRange ↔ ∃ rs, Describes body rs ∧ ∃ r ∈ rs, r.hi < r.lo) ∧
      ∀ rs, classRanges body = .ok rs ↔ body ≠ "" ∧ Describes body rs ∧ ∀ r ∈ rs, r.lo ≤ r.hi := by
  refine ⟨fun rs hne hle => ?_, fun body => ?_⟩
  · rw [(describes_classBody rs).classRanges_eq (classBody_ne_empty hne), if_pos hle]
  -- one of four conditions holds, and each of them tells what comes out
  have hempty : body = "" → classRanges body = .error .empty := by
    rintro rfl
    rfl
  have hends : EndsUnpaired body.toList → classRanges body = .error .danglingEscape := classRanges_of_endsUnpaired
  have hreversed : (∃ rs, Describes body rs ∧ ∃ r ∈ rs, r.hi < r.lo) → classRanges body = .error .reversedRange := by
    rintro ⟨rs, hrs, r, hr, hlt⟩
    rw [hrs.classRanges_eq, if_neg fun hle => Char.not_lt.2 (hle r hr) hlt]
    rintro rfl
    rw [describes_empty_iff.1 hrs] at hr
    cases hr
  have hread : ∀ rs, body ≠ "" ∧ Describes body rs ∧ (∀ r ∈ rs, r.lo ≤ r.hi) → classRanges body = .ok rs := by
    rintro rs ⟨hne, hrs, hle⟩
    rw [hrs.classRanges_eq hne, if_pos hle]
  refine ⟨⟨fun h => ?_, hempty⟩, ⟨fun h => ?_, hends⟩, ⟨fun h => ?_, hreversed⟩, fun rs => ⟨fun h => ?_, hread rs⟩⟩
  all_goals
    rcases condition_cases body with hc | hc | hc | ⟨rs', hc⟩
    · cases (hempty hc).symm.trans h <;> exact hc
    · cases (hends hc).symm.trans h <;> exact hc
    · cases (hreversed hc).symm.trans h <;> exact hc
    · cases (hread rs' hc).symm.trans h <;> exact hc

/-- A dash and a backslash among the ranges, as bounds and by themselves. -/
theorem classRanges_signs :
    classRanges (classBody [⟨'a', 'f'⟩, ⟨'-', '-'⟩, ⟨'+', '-'⟩, ⟨'\\', '_'⟩]) =
        .ok [⟨'a', 'f'⟩, ⟨'-', '-'⟩, ⟨'+', '-'⟩, ⟨'\\', '_'⟩] ∧
      classBody [⟨'a', 'f'⟩, ⟨'-', '-'⟩, ⟨'+', '-'⟩, ⟨'\\', '_'⟩] = "a-f\\-+-\\-\\\\-_" :=
  ⟨classRanges_exact.1 _ (by decide) (by decide), by decide⟩

end Typeahead.Text
