import Typeahead.Data.Value

/-!
# Values up to the order of their entries

The entries of a table have no order: a writer may put them in any.  `Value.Rearranges` says that two values differ in
nothing else, at any depth.  If no key occurs twice, a rearranged table is looked up like the table itself
(`lookup_of_perm`).
-/

namespace Typeahead.Data.Value

mutual

/-- The second value is the first one, except that the entries of its tables may stand in another order. -/
def Rearranges : Value → Value → Prop
  | .array vs, w => ∃ ws, w = .array ws ∧ RearrangesItems vs ws
  | .table es, w => ∃ fs gs, w = .table gs ∧ RearrangesEntries es fs ∧ fs.Perm gs
  | v, w => w = v

/-- The items of two lists correspond one by one. -/
def RearrangesItems : List Value → List Value → Prop
  | [], ws => ws = []
  | v :: vs, ws => ∃ w rest, ws = w :: rest ∧ Rearranges v w ∧ RearrangesItems vs rest

/-- The entries of two lists have the same keys, and their values correspond one by one. -/
def RearrangesEntries : List (String × Value) → List (String × Value) → Prop
  | [], fs => fs = []
  | (key, v) :: es, fs => ∃ w rest, fs = (key, w) :: rest ∧ Rearranges v w ∧ RearrangesEntries es rest

end

mutual

theorem rearranges_refl (v : Value) : Rearranges v v := by
  match v with
  | .array vs => exact ⟨vs, rfl, rearrangesItems_refl vs⟩
  | .table es => exact ⟨es, es, rfl, rearrangesEntries_refl es, .refl es⟩
  | .null | .bool _ | .int _ | .real _ _ | .datetime _ | .string _ => rfl

theorem rearrangesItems_refl (vs : List Value) : RearrangesItems vs vs := by
  match vs with
  | [] => rfl
  | v :: vs => exact ⟨v, vs, rfl, rearranges_refl v, rearrangesItems_refl vs⟩

theorem rearrangesEntries_refl (es : List (String × Value)) : RearrangesEntries es es := by
  match es with
  | [] => rfl
  | (_, v) :: es => exact ⟨v, es, rfl, rearranges_refl v, rearrangesEntries_refl es⟩

end

/-- A table with one entry keeps its shape. -/
theorem rearranges_singleton_iff {key : String} {v w : Value} :
    Rearranges (.table [(key, v)]) w ↔ ∃ v', w = .table [(key, v')] ∧ Rearranges v v' := by
  constructor
  · rintro ⟨_, gs, rfl, ⟨v', _, rfl, hv, rfl⟩, hp⟩
    exact ⟨v', by rw [List.perm_singleton.1 hp.symm], hv⟩
  · rintro ⟨v', rfl, hv⟩
    exact ⟨_, _, rfl, ⟨v', [], rfl, hv, rfl⟩, .refl _⟩

/-! ### What the order does not matter for -/

/-- Where keys are distinct, entries are found in whatever order they stand. -/
theorem lookup_of_perm {es fs : List (String × Value)} (h : es.Perm fs) (hn : (es.map (·.1)).Nodup) (key : String) :
    fs.lookup key = es.lookup key := by
  induction h with
  | nil => rfl
  | cons e _ ih => rw [List.lookup_cons, List.lookup_cons, ih (List.nodup_cons.1 hn).2]
  | swap e f l =>
    obtain ⟨e, v⟩ := e
    obtain ⟨f, w⟩ := f
    have hne : f ≠ e := by
      rintro rfl
      exact (List.nodup_cons.1 hn).1 (List.mem_cons_self ..)
    simp only [List.lookup_cons]
    by_cases he : key = e
    · rw [he, beq_self_eq_true, beq_false_of_ne hne.symm]
    · rw [beq_false_of_ne he]
  | trans h _ ih ih' => rw [ih' ((h.map (·.1)).nodup hn), ih hn]

private theorem entriesWithin_eq_all (least greatest : Int) (es : List (String × Value)) :
    entriesWithin least greatest es = es.all fun e => e.2.numbersWithin least greatest := by
  induction es with
  | nil => rfl
  | cons e es ih => rw [entriesWithin, ih, List.all_cons]

mutual

/-- A rearranged value has the same numbers. -/
theorem numbersWithin_of_rearranges {least greatest : Int} (v : Value) {w : Value} (h : Rearranges v w) :
    w.numbersWithin least greatest = v.numbersWithin least greatest := by
  match v with
  | .array vs =>
    obtain ⟨ws, rfl, hws⟩ := h
    rw [numbersWithin, numbersWithin, itemsWithin_of_rearranges vs hws]
  | .table es =>
    obtain ⟨fs, gs, rfl, hfs, hp⟩ := h
    rw [numbersWithin, numbersWithin, ← entriesWithin_of_rearranges es hfs, entriesWithin_eq_all,
      entriesWithin_eq_all, hp.all_eq]
  | .null | .bool _ | .int _ | .real _ _ | .datetime _ | .string _ =>
    cases h
    rfl

theorem itemsWithin_of_rearranges {least greatest : Int} (vs : List Value) {ws : List Value}
    (h : RearrangesItems vs ws) : itemsWithin least greatest ws = itemsWithin least greatest vs := by
  match vs with
  | [] =>
    cases h
    rfl
  | v :: vs =>
    obtain ⟨w, rest, rfl, hv, hrest⟩ := h
    rw [itemsWithin, itemsWithin, numbersWithin_of_rearranges v hv, itemsWithin_of_rearranges vs hrest]

theorem entriesWithin_of_rearranges {least greatest : Int} (es : List (String × Value)) {fs : List (String × Value)}
    (h : RearrangesEntries es fs) : entriesWithin least greatest fs = entriesWithin least greatest es := by
  match es with
  | [] =>
    cases h
    rfl
  | (key, v) :: es =>
    obtain ⟨w, rest, rfl, hv, hrest⟩ := h
    rw [entriesWithin, entriesWithin, numbersWithin_of_rearranges v hv, entriesWithin_of_rearranges es hrest]

end

/-- Items that are written one by one can be read one by one. -/
theorem mapM_of_rearranges {α : Type} {write : α → Value} {read : Value → Option α} {l : List α} {ws : List Value}
    (hread : ∀ a ∈ l, ∀ w, (write a).Rearranges w → read w = some a) (h : RearrangesItems (l.map write) ws) :
    ws.mapM read = some l := by
  induction l generalizing ws with
  | nil =>
    cases h
    rfl
  | cons a l ih =>
    obtain ⟨w, rest, rfl, hw, hrest⟩ := h
    obtain ⟨ha, hl⟩ := List.forall_mem_cons.1 hread
    rw [List.mapM_cons, ha w hw, ih hl hrest]
    rfl

end Typeahead.Data.Value
