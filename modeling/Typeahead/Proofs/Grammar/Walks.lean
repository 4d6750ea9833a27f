import Mathlib.Data.List.Perm.Subperm
import Mathlib.Data.Set.Basic
import Typeahead.Proofs.Network.InRange

/-!
# Walks through a lexical rule

`Network.walk` follows all paths from a position, depth first.  What it does is told here without fuel and without a
list of what has been found: paths (`Walks`), the texts they spell (`Completes`), and the reasons for giving up
(`Fails`).  A walk that succeeds has met no such reason and has found just the texts (`walk_eq_some`); a walk that gives
up has met a reason or too many texts (`walk_eq_none`).  The fuel never runs out, because the positions on a path are
distinct and there are not more of them (`length_le_positionCount`).
-/

namespace Typeahead.Network

variable {net : LexicalNetwork}

/-! ### Paths -/

/-- One step of a walk, which may spell a character. -/
inductive WalkStep (net : LexicalNetwork) : WalkPosition → Option Char → WalkPosition → Prop where
  | epsilon {s target : StateId} {returns : List StateId} (h : .epsilon target ∈ net.transitions s) :
    WalkStep net ⟨s, returns⟩ none ⟨target, returns⟩
  | symbol {s target : StateId} {returns : List StateId} {c : Char}
    (h : .consume (.symbol c) target ∈ net.transitions s) : WalkStep net ⟨s, returns⟩ (some c) ⟨target, returns⟩
  | oneOf {s target : StateId} {returns : List StateId} {set : Text.CharSet} {c : Char}
    (h : .consume (.oneOf set) target ∈ net.transitions s) (hc : set.spelling? = some c) :
    WalkStep net ⟨s, returns⟩ (some c) ⟨target, returns⟩
  | call {s follow start : StateId} {callee : RuleId} {returns : List StateId}
    (h : .call callee follow ∈ net.transitions s) (hs : net.start? callee = some start) :
    WalkStep net ⟨s, returns⟩ none ⟨start, follow :: returns⟩
  | leave {s follow : StateId} {returns : List StateId} (h : .leave ∈ net.transitions s) :
    WalkStep net ⟨s, follow :: returns⟩ none ⟨follow, returns⟩

/-- A walk from one position to another: the positions it leaves on the way, and the text it spells. -/
inductive Walks (net : LexicalNetwork) : WalkPosition → List WalkPosition → List Char → WalkPosition → Prop where
  | refl (p : WalkPosition) : Walks net p [] [] p
  | step {p q r : WalkPosition} {c : Option Char} {trail : List WalkPosition} {text : List Char}
    (h : WalkStep net p c q) (hw : Walks net q trail text r) : Walks net p (p :: trail) (c.toList ++ text) r

/-- A set of characters without a spelling comes next. -/
def Unspelled (net : LexicalNetwork) (p : WalkPosition) : Prop :=
  ∃ set target, .consume (.oneOf set) target ∈ net.transitions p.state ∧ set.spelling? = none

/-- There are 32 open fragments, and another one comes next. -/
def TooDeep (net : LexicalNetwork) (p : WalkPosition) : Prop :=
  32 ≤ p.returns.length ∧ ∃ callee follow, .call callee follow ∈ net.transitions p.state

/-- The outermost rule can be left. -/
def Ends (net : LexicalNetwork) (p : WalkPosition) : Prop := p.returns = [] ∧ .leave ∈ net.transitions p.state

/-- Some walk from the position spells the text up to the end of the outermost rule. -/
def Completes (net : LexicalNetwork) (p : WalkPosition) (text : List Char) : Prop :=
  ∃ trail q, Walks net p trail text q ∧ net.Ends q

/-- Some walk from the position meets a reason to give up; `path` lists the positions before. -/
def Fails (net : LexicalNetwork) (path : List WalkPosition) (p : WalkPosition) : Prop :=
  ∃ trail text q, Walks net p trail text q ∧ (net.Unspelled q ∨ (q ∈ trail ∨ q ∈ path) ∨ net.TooDeep q)

/-! ### What a transition means for a walk -/

/-- What a walk does with a transition. -/
inductive Visit where
  | stuck
  | goes (spelled : Option Char) (next : WalkPosition)
  | ends

/-- What a walk does with a transition at a position. -/
def visit (net : LexicalNetwork) (p : WalkPosition) : Transition Char Text.CharSet → Visit
  | .epsilon target => .goes none ⟨target, p.returns⟩
  | .consume (.symbol c) target => .goes (some c) ⟨target, p.returns⟩
  | .consume (.oneOf set) target =>
    match set.spelling? with
    | none => .stuck
    | some c => .goes (some c) ⟨target, p.returns⟩
  | .call callee follow =>
    if maxFragmentDepth ≤ p.returns.length then .stuck
    else
      match net.start? callee with
      | none => .stuck
      | some start => .goes none ⟨start, follow :: p.returns⟩
  | .leave =>
    match p.returns with
    | follow :: returns => .goes none ⟨follow, returns⟩
    | [] => .ends

/-- Adds a spelling that is complete, unless it has been found before. -/
def note (text : List Char) (found : List String) : Option (List String) :=
  if found.contains (String.ofList text.reverse) then some found
  else if maxSpellings ≤ found.length then none
  else some (found ++ [String.ofList text.reverse])

/-- Walks on over one transition. -/
def walkOver (net : LexicalNetwork) (fuel : Nat) (path : List WalkPosition) (p : WalkPosition) (text : List Char)
    (found : List String) (t : Transition Char Text.CharSet) : Option (List String) :=
  match net.visit p t with
  | .stuck => none
  | .goes c q => walk net fuel (p :: path) q (c.toList ++ text) found
  | .ends => note text found

theorem walk_succ (fuel : Nat) (path : List WalkPosition) (p : WalkPosition) (text : List Char) (found : List String) :
    walk net (fuel + 1) path p text found =
      if p ∈ path then none
      else (net.transitions p.state).foldlM (net.walkOver fuel path p text) found := by
  rw [walk]
  congr 2
  funext found t
  unfold walkOver visit note
  cases t with
  | epsilon target => rfl
  | consume label target =>
    cases label with
    | symbol c => rfl
    | oneOf set => cases hs : set.spelling? <;> simp [hs]
  | call callee follow =>
    by_cases hd : maxFragmentDepth ≤ p.returns.length
    · simp [hd]
    · cases hs : net.start? callee <;> simp [hd, hs]
  | leave => cases p.returns <;> simp

variable {p q : WalkPosition} {c : Option Char} {t : Transition Char Text.CharSet} {path : List WalkPosition}
  {text : List Char} {found found' : List String}

theorem walkStep_of_visit (ht : t ∈ net.transitions p.state) (h : net.visit p t = .goes c q) : net.WalkStep p c q := by
  obtain ⟨s, returns⟩ := p
  cases t with
  | epsilon target =>
    cases h
    exact .epsilon ht
  | consume label target =>
    cases label with
    | symbol x =>
      cases h
      exact .symbol ht
    | oneOf set =>
      simp only [visit] at h
      split at h
      · cases h
      · rename_i hc
        cases h
        exact .oneOf ht hc
  | call callee follow =>
    simp only [visit] at h
    split at h
    · cases h
    · split at h
      · cases h
      · rename_i hs
        cases h
        exact .call ht hs
  | leave =>
    cases returns with
    | nil => cases h
    | cons follow returns =>
      cases h
      exact .leave ht

theorem exists_visit (hd : ¬ net.TooDeep p) (h : net.WalkStep p c q) :
    ∃ t ∈ net.transitions p.state, net.visit p t = .goes c q := by
  cases h with
  | epsilon h => exact ⟨_, h, rfl⟩
  | symbol h => exact ⟨_, h, rfl⟩
  | oneOf h hc => exact ⟨_, h, by simp [visit, hc]⟩
  | call h hs =>
    have hdepth : ¬ maxFragmentDepth ≤ _ := fun hle => hd ⟨hle, _, _, h⟩
    exact ⟨_, h, by simp [visit, hdepth, hs]⟩
  | leave h => exact ⟨_, h, rfl⟩

/-- In a network without dangling ids a walk gets stuck for two reasons only. -/
theorem unspelled_or_tooDeep (hn : net.InRange) (ht : t ∈ net.transitions p.state) (h : net.visit p t = .stuck) :
    net.Unspelled p ∨ net.TooDeep p := by
  cases t with
  | epsilon target => cases h
  | consume label target =>
    cases label with
    | symbol x => cases h
    | oneOf set =>
      simp only [visit] at h
      split at h
      · rename_i hc
        exact Or.inl ⟨set, target, ht, hc⟩
      · cases h
  | call callee follow =>
    simp only [visit] at h
    split at h
    · rename_i hd
      exact Or.inr ⟨hd, callee, follow, ht⟩
    · obtain ⟨start, hs⟩ := hn.exists_start? ht
      rw [hs] at h
      cases h
  | leave =>
    obtain ⟨s, returns⟩ := p
    cases returns <;> cases h

theorem not_unspelled (h : ∀ t ∈ net.transitions p.state, net.visit p t ≠ .stuck) : ¬ net.Unspelled p := by
  rintro ⟨set, target, ht, hc⟩
  exact h _ ht (by simp [visit, hc])

theorem not_tooDeep (h : ∀ t ∈ net.transitions p.state, net.visit p t ≠ .stuck) : ¬ net.TooDeep p := by
  rintro ⟨hd, callee, follow, ht⟩
  exact h _ ht (by simp [visit, maxFragmentDepth, hd])

theorem ends_iff : net.Ends p ↔ ∃ t ∈ net.transitions p.state, net.visit p t = .ends := by
  obtain ⟨s, returns⟩ := p
  constructor
  · rintro ⟨rfl, h⟩
    exact ⟨_, h, rfl⟩
  · rintro ⟨t, ht, h⟩
    cases t with
    | epsilon target => cases h
    | consume label target =>
      cases label with
      | symbol x => cases h
      | oneOf set =>
        simp only [visit] at h
        split at h <;> cases h
    | call callee follow =>
      simp only [visit] at h
      split at h
      · cases h
      · split at h <;> cases h
    | leave =>
      cases returns with
      | nil => exact ⟨rfl, ht⟩
      | cons follow returns => cases h

/-! ### Spellings -/

/-- The spellings that are completed from a position where the text, last character first, has been spelled. -/
def texts (net : LexicalNetwork) (p : WalkPosition) (text : List Char) : Set String :=
  {s | ∃ v, net.Completes p v ∧ s = String.ofList (text.reverse ++ v)}

/-- The spellings that are completed over one transition. -/
def textsOver (net : LexicalNetwork) (p : WalkPosition) (text : List Char) (t : Transition Char Text.CharSet) :
    Set String :=
  match net.visit p t with
  | .stuck => ∅
  | .goes c q => net.texts q (c.toList ++ text)
  | .ends => {String.ofList text.reverse}

theorem Completes.step (h : net.WalkStep p c q) (hq : net.Completes q text) : net.Completes p (c.toList ++ text) := by
  obtain ⟨trail, r, hw, hr⟩ := hq
  exact ⟨p :: trail, r, .step h hw, hr⟩

theorem textsOver_subset (ht : t ∈ net.transitions p.state) : net.textsOver p text t ⊆ net.texts p text := by
  intro s hs
  unfold textsOver at hs
  split at hs
  · cases hs
  · rename_i c q hv
    obtain ⟨v, hc, rfl⟩ := hs
    refine ⟨c.toList ++ v, hc.step (walkStep_of_visit ht hv), ?_⟩
    cases c <;> simp
  · rename_i hv
    exact ⟨[], ⟨[], p, .refl p, ends_iff.2 ⟨t, ht, hv⟩⟩, by rw [hs, List.append_nil]⟩

/-- Where no fragment is too deep, every spelling is completed over some transition. -/
theorem exists_mem_textsOver (hd : ¬ net.TooDeep p) {s : String} (hs : s ∈ net.texts p text) :
    ∃ t ∈ net.transitions p.state, s ∈ net.textsOver p text t := by
  obtain ⟨v, ⟨trail, q, hw, hq⟩, rfl⟩ := hs
  cases hw with
  | refl =>
    obtain ⟨t, ht, hv⟩ := ends_iff.1 hq
    refine ⟨t, ht, ?_⟩
    unfold textsOver
    rw [hv, List.append_nil]
    rfl
  | @step _ r _ c trail v h hw =>
    obtain ⟨t, ht, hv⟩ := exists_visit hd h
    refine ⟨t, ht, ?_⟩
    unfold textsOver
    rw [hv]
    refine ⟨v, ⟨trail, q, hw, hq⟩, ?_⟩
    cases c <;> simp

/-! ### Collecting spellings -/

/-- The spellings of a set have been added, each once and not too many. -/
structure Collects (found found' : List String) (S : Set String) : Prop where
  nodup : found.Nodup → found'.Nodup
  length_le : found.length ≤ maxSpellings → found'.length ≤ maxSpellings
  mem_iff : ∀ s, s ∈ found' ↔ s ∈ found ∨ s ∈ S

/-- There are more spellings than a token can have. -/
def Overflows (found : List String) (S : Set String) : Prop :=
  ∃ l : List String, l.Nodup ∧ maxSpellings < l.length ∧ ∀ s ∈ l, s ∈ found ∨ s ∈ S

theorem Collects.congr {S S' : Set String} (h : Collects found found' S) (hS : ∀ s, s ∈ S ↔ s ∈ S') :
    Collects found found' S' :=
  ⟨h.nodup, h.length_le, fun s => by rw [h.mem_iff, hS]⟩

theorem Overflows.of_collects {S S' T : Set String} (h : Overflows found' S') (hc : Collects found found' S)
    (hS : S ⊆ T) (hS' : S' ⊆ T) : Overflows found T := by
  obtain ⟨l, hl, hlen, hmem⟩ := h
  refine ⟨l, hl, hlen, fun s hs => ?_⟩
  rcases hmem s hs with hs | hs
  · exact ((hc.mem_iff s).1 hs).imp_right fun hs => hS hs
  · exact Or.inr (hS' hs)

theorem collects_note (h : note text found = some found') : Collects found found' {String.ofList text.reverse} := by
  unfold note at h
  split at h
  · rename_i hmem
    cases h
    rw [List.contains_iff_mem] at hmem
    refine ⟨id, id, fun s => (or_iff_left_of_imp ?_).symm⟩
    rintro rfl
    exact hmem
  · rename_i hmem
    rw [List.contains_iff_mem] at hmem
    split at h
    · cases h
    · rename_i hlen
      cases h
      refine ⟨fun hn => ?_, fun _ => ?_, fun s => ?_⟩
      · exact List.nodup_append.2 ⟨hn, List.nodup_singleton _, fun a ha b hb hab =>
          hmem (List.mem_singleton.1 hb ▸ hab ▸ ha)⟩
      · rw [List.length_append, List.length_singleton]
        omega
      · rw [List.mem_append, List.mem_singleton]
        rfl

theorem overflows_note (hn : found.Nodup) (h : note text found = none) :
    Overflows found {String.ofList text.reverse} := by
  unfold note at h
  split at h
  · cases h
  · rename_i hmem
    rw [List.contains_iff_mem] at hmem
    split at h
    · rename_i hlen
      refine ⟨String.ofList text.reverse :: found, List.nodup_cons.2 ⟨hmem, hn⟩, Nat.lt_succ_of_le hlen, fun s hs => ?_⟩
      rcases List.mem_cons.1 hs with rfl | hs
      · exact Or.inr rfl
      · exact Or.inl hs
    · cases h

section FoldlM

variable {α : Type} {f : List String → α → Option (List String)} {S : α → Set String} {ts : List α}

theorem collects_foldlM (h : ts.foldlM f found = some found')
    (hf : ∀ t ∈ ts, ∀ l l', f l t = some l' → Collects l l' (S t)) : Collects found found' {s | ∃ t ∈ ts, s ∈ S t} := by
  induction ts generalizing found with
  | nil =>
    cases h
    exact ⟨id, id, fun s => by simp⟩
  | cons t ts ih =>
    obtain ⟨hft, hf⟩ := List.forall_mem_cons.1 hf
    rw [List.foldlM_cons] at h
    obtain ⟨l, hl, h⟩ := Option.bind_eq_some_iff.1 h
    have ht := hft _ _ hl
    have hts := ih h hf
    refine ⟨fun hn => hts.nodup (ht.nodup hn), fun hle => hts.length_le (ht.length_le hle), fun s => ?_⟩
    rw [hts.mem_iff, ht.mem_iff, or_assoc]
    simp

theorem exists_eq_some_of_foldlM (h : ts.foldlM f found = some found') : ∀ t ∈ ts, ∃ l l', f l t = some l' := by
  induction ts generalizing found with
  | nil => simp
  | cons t ts ih =>
    rw [List.foldlM_cons] at h
    obtain ⟨l, hl, h⟩ := Option.bind_eq_some_iff.1 h
    exact List.forall_mem_cons.2 ⟨⟨found, l, hl⟩, ih h⟩

/-- A fold that fails does so at some item, behind items that do not fail. -/
theorem exists_eq_none_of_foldlM (h : ts.foldlM f found = none) :
    ∃ us t l, us ⊆ ts ∧ t ∈ ts ∧ us.foldlM f found = some l ∧ f l t = none := by
  induction ts generalizing found with
  | nil => cases h
  | cons t ts ih =>
    rw [List.foldlM_cons] at h
    cases hl : f found t with
    | none => exact ⟨[], t, found, List.nil_subset _, List.mem_cons_self .., rfl, hl⟩
    | some l =>
      rw [hl] at h
      obtain ⟨us, t', l', hus, ht', hl', hf⟩ := ih h
      refine ⟨t :: us, t', l', List.cons_subset_cons t hus, List.mem_cons_of_mem _ ht', ?_, hf⟩
      rw [List.foldlM_cons, hl]
      exact hl'

end FoldlM

/-! ### Walks that succeed -/

theorem Fails.of_step (h : net.WalkStep p c q) (hq : net.Fails (p :: path) q) : net.Fails path p := by
  obtain ⟨trail, text, r, hw, hr⟩ := hq
  refine ⟨p :: trail, c.toList ++ text, r, .step h hw, hr.imp_right (Or.imp_left ?_)⟩
  rintro (hr | hr)
  · exact Or.inl (List.mem_cons_of_mem _ hr)
  · rcases List.mem_cons.1 hr with rfl | hr
    · exact Or.inl (List.mem_cons_self ..)
    · exact Or.inr hr

/-- What holds of the walks with some fuel holds over each transition. -/
private theorem walkOver_eq_some {fuel : Nat}
    (hwalk : ∀ {path p text found found'}, walk net fuel path p text found = some found' →
      ¬ net.Fails path p ∧ Collects found found' (net.texts p text))
    (h : net.walkOver fuel path p text found t = some found') :
    net.visit p t ≠ .stuck ∧ (∀ c q, net.visit p t = .goes c q → ¬ net.Fails (p :: path) q) ∧
      Collects found found' (net.textsOver p text t) := by
  unfold walkOver at h
  unfold textsOver
  split at h
  · cases h
  · rename_i c q hv
    obtain ⟨hq, hc⟩ := hwalk h
    rw [hv]
    refine ⟨by simp, fun c' q' he => ?_, hc⟩
    cases he
    exact hq
  · rename_i hv
    rw [hv]
    exact ⟨by simp, by simp, collects_note h⟩

/-- A walk that succeeds has met no reason to give up, and has found the spellings that are completed. -/
theorem walk_eq_some {fuel : Nat} (h : walk net fuel path p text found = some found') :
    ¬ net.Fails path p ∧ Collects found found' (net.texts p text) := by
  induction fuel generalizing path p text found found' with
  | zero => cases h
  | succ fuel ih =>
    rw [walk_succ] at h
    split at h
    · cases h
    · rename_i hnew
      have hvisit : ∀ t ∈ net.transitions p.state,
          net.visit p t ≠ .stuck ∧ ∀ c q, net.visit p t = .goes c q → ¬ net.Fails (p :: path) q := by
        intro t ht
        obtain ⟨l, l', hl⟩ := exists_eq_some_of_foldlM h t ht
        obtain ⟨hstuck, hgoes, -⟩ := walkOver_eq_some ih hl
        exact ⟨hstuck, hgoes⟩
      have hdeep := not_tooDeep fun t ht => (hvisit t ht).1
      constructor
      · rintro ⟨trail, v, r, hw, hr⟩
        cases hw with
        | refl =>
          rcases hr with hr | (hr | hr) | hr
          · exact not_unspelled (fun t ht => (hvisit t ht).1) hr
          · cases hr
          · exact hnew hr
          · exact hdeep hr
        | step hs hw =>
          obtain ⟨t, ht, hv⟩ := exists_visit hdeep hs
          refine (hvisit t ht).2 _ _ hv ⟨_, _, r, hw, hr.imp_right (Or.imp_left ?_)⟩
          rintro (hr | hr)
          · rcases List.mem_cons.1 hr with rfl | hr
            · exact Or.inr (List.mem_cons_self ..)
            · exact Or.inl hr
          · exact Or.inr (List.mem_cons_of_mem _ hr)
      · refine (collects_foldlM h fun t _ l l' hl => (walkOver_eq_some ih hl).2.2).congr fun s => ⟨?_, ?_⟩
        · rintro ⟨t, ht, hs⟩
          exact textsOver_subset ht hs
        · exact exists_mem_textsOver hdeep

/-! ### Positions -/

/-- The states of the position are among the first `n`, and no more than `depth` fragments are open. -/
structure Inside (n depth : Nat) (p : WalkPosition) : Prop where
  state_lt : p.state < n
  length_le : p.returns.length ≤ depth
  returns_lt : ∀ s ∈ p.returns, s < n

/-- All lists of at most so many of the first `n` states. -/
def returnLists (n : Nat) : Nat → List (List StateId)
  | 0 => [[]]
  | depth + 1 => [] :: (List.range n).flatMap fun s => (returnLists n depth).map (s :: ·)

/-- All positions with at most `depth` open fragments. -/
def positions (n depth : Nat) : List WalkPosition :=
  (List.range n).flatMap fun s => (returnLists n depth).map (⟨s, ·⟩)

theorem mem_returnLists {n depth : Nat} {returns : List StateId} (hlen : returns.length ≤ depth)
    (hlt : ∀ s ∈ returns, s < n) : returns ∈ returnLists n depth := by
  induction depth generalizing returns with
  | zero =>
    rw [List.length_eq_zero_iff.1 (Nat.le_zero.1 hlen)]
    exact List.mem_singleton.2 rfl
  | succ depth ih =>
    cases returns with
    | nil => exact List.mem_cons_self ..
    | cons s returns =>
      obtain ⟨hs, hlt⟩ := List.forall_mem_cons.1 hlt
      refine List.mem_cons_of_mem _ (List.mem_flatMap.2 ⟨s, List.mem_range.2 hs, ?_⟩)
      exact List.mem_map.2 ⟨returns, ih (Nat.le_of_succ_le_succ hlen) hlt, rfl⟩

theorem Inside.mem_positions {n depth : Nat} (h : Inside n depth p) : p ∈ positions n depth :=
  List.mem_flatMap.2 ⟨p.state, List.mem_range.2 h.state_lt,
    List.mem_map.2 ⟨p.returns, mem_returnLists h.length_le h.returns_lt, rfl⟩⟩

theorem length_positions (n depth : Nat) : (positions n depth).length = n * (returnLists n depth).length := by
  simp [positions, List.length_flatMap]

theorem positionCount_eq (n depth : Nat) : positionCount n depth = (positions n depth).length := by
  rw [length_positions]
  induction depth with
  | zero => simp [positionCount, returnLists]
  | succ depth ih =>
    rw [positionCount, ih]
    simp [returnLists, List.length_flatMap, Nat.add_comm]

/-- Distinct positions are not more than there are. -/
theorem length_le_positionCount {n depth : Nat} (hn : path.Nodup) (h : ∀ q ∈ path, Inside n depth q) :
    path.length ≤ positionCount n depth := by
  rw [positionCount_eq]
  exact (List.subperm_of_subset hn fun q hq => (h q hq).mem_positions).length_le

theorem positionCount_mono {n n' : Nat} (h : n ≤ n') (depth : Nat) :
    positionCount n depth ≤ positionCount n' depth := by
  induction depth with
  | zero => exact h
  | succ depth ih => exact Nat.mul_le_mul h (Nat.add_le_add_left ih 1)

/-- A walk opens no more fragments than may be open. -/
theorem length_returns_le (hp : p.returns.length ≤ maxFragmentDepth) (h : net.visit p t = .goes c q) :
    q.returns.length ≤ maxFragmentDepth := by
  obtain ⟨s, returns⟩ := p
  cases t with
  | epsilon target =>
    cases h
    exact hp
  | consume label target =>
    cases label with
    | symbol x =>
      cases h
      exact hp
    | oneOf set =>
      simp only [visit] at h
      split at h
      · cases h
      · cases h
        exact hp
  | call callee follow =>
    simp only [visit] at h
    split at h
    · cases h
    · rename_i hdeep
      split at h
      · cases h
      · cases h
        exact Nat.lt_of_not_le hdeep
  | leave =>
    cases returns with
    | nil => cases h
    | cons follow returns =>
      cases h
      exact Nat.le_of_succ_le hp

/-- A step in a network without dangling ids stays inside, unless too many fragments are open after it. -/
theorem Inside.of_walkStep (hn : net.InRange) {n : Nat} (hle : net.states.size ≤ n) (hp : Inside n maxFragmentDepth p)
    (h : net.WalkStep p c q) (hq : q.returns.length ≤ maxFragmentDepth) : Inside n maxFragmentDepth q := by
  obtain ⟨-, -, hreturns⟩ := hp
  have hnext : ∀ {t u}, t ∈ net.transitions p.state → t.next? = some u → u < n :=
    fun ht hu => Nat.lt_of_lt_of_le (hn.next_lt ht hu) hle
  cases h with
  | epsilon ht | symbol ht | oneOf ht _ => exact ⟨hnext ht rfl, hq, hreturns⟩
  | call ht hs =>
    exact ⟨Nat.lt_of_lt_of_le (hn.start_lt hs) hle, hq, List.forall_mem_cons.2 ⟨hnext ht rfl, hreturns⟩⟩
  | leave ht =>
    obtain ⟨hfollow, hreturns⟩ := List.forall_mem_cons.1 hreturns
    exact ⟨hfollow, hq, hreturns⟩

/-- Where a walk goes over a transition, it stays inside. -/
theorem Inside.of_visit (hn : net.InRange) {n : Nat} (hle : net.states.size ≤ n) (hp : Inside n maxFragmentDepth p)
    (ht : t ∈ net.transitions p.state) (h : net.visit p t = .goes c q) : Inside n maxFragmentDepth q :=
  hp.of_walkStep hn hle (walkStep_of_visit ht h) (length_returns_le hp.length_le h)

/-! ### Walks that give up -/

/-- A walk that gives up, and not for lack of fuel, has met a reason to give up, or there are too many spellings. -/
theorem walk_eq_none (hn : net.InRange) {n fuel : Nat} (hle : net.states.size ≤ n)
    (hfuel : positionCount n maxFragmentDepth < fuel + path.length) (hpath : path.Nodup)
    (hin : ∀ q ∈ path, Inside n maxFragmentDepth q) (hp : Inside n maxFragmentDepth p) (hfound : found.Nodup)
    (h : walk net fuel path p text found = none) : net.Fails path p ∨ Overflows found (net.texts p text) := by
  induction fuel generalizing path p text found with
  | zero =>
    have hlen := length_le_positionCount hpath hin
    omega
  | succ fuel ih =>
    rw [walk_succ] at h
    split at h
    · rename_i hmem
      exact Or.inl ⟨[], [], p, .refl p, Or.inr (Or.inl (Or.inr hmem))⟩
    · rename_i hnew
      -- some transition fails, and those before it have collected their spellings
      obtain ⟨us, t, l, hus, ht, hl, hf⟩ := exists_eq_none_of_foldlM h
      have hbefore := collects_foldlM hl fun t _ l l' hl => (walkOver_eq_some walk_eq_some hl).2.2
      have hbefore_subset : {s | ∃ u ∈ us, s ∈ net.textsOver p text u} ⊆ net.texts p text := by
        rintro s ⟨u, hu, hs⟩
        exact textsOver_subset (hus hu) hs
      have hover : Overflows l (net.textsOver p text t) → Overflows found (net.texts p text) :=
        fun ho => ho.of_collects hbefore hbefore_subset (textsOver_subset ht)
      unfold walkOver at hf
      unfold textsOver at hover
      split at hf
      · rename_i hv
        refine Or.inl ⟨[], [], p, .refl p, ?_⟩
        exact (unspelled_or_tooDeep hn ht hv).imp_right Or.inr
      · rename_i c q hv
        rw [hv] at hover
        have hfuel' : positionCount n maxFragmentDepth < fuel + (p :: path).length := by
          rw [List.length_cons]
          omega
        have hq := ih hfuel' (List.nodup_cons.2 ⟨hnew, hpath⟩) (List.forall_mem_cons.2 ⟨hp, hin⟩)
          (hp.of_visit hn hle ht hv) (hbefore.nodup hfound) hf
        exact hq.imp (Fails.of_step (walkStep_of_visit ht hv)) hover
      · rename_i hv
        rw [hv] at hover
        exact Or.inr (hover (overflows_note (hbefore.nodup hfound) hf))

end Typeahead.Network
