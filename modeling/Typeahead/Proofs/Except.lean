/-!
# Steps that can fail

How a chain of steps that can fail succeeds or fails, and what it reports then (`fault?`).
-/

namespace Typeahead

variable {ε A B C : Type}

theorem except_bind_eq_ok {x : Except ε A} {f : A → Except ε B} {b : B} :
    x >>= f = .ok b ↔ ∃ a, x = .ok a ∧ f a = .ok b := by
  constructor
  · intro h
    cases x with
    | error e => cases h
    | ok a => exact ⟨a, rfl, h⟩
  · rintro ⟨a, rfl, h⟩
    exact h

theorem except_map_eq_ok {f : A → B} {x : Except ε A} {b : B} :
    x.map f = .ok b ↔ ∃ a, x = .ok a ∧ f a = b := by
  constructor
  · intro h
    cases x with
    | error e => cases h
    | ok a => exact ⟨a, rfl, Except.ok.inj h⟩
  · rintro ⟨a, rfl, rfl⟩
    rfl

theorem except_map_eq_error {f : A → B} {x : Except ε A} {e : ε} : x.map f = .error e ↔ x = .error e := by
  cases x <;> simp [Except.map]

/-- A check of the result that passes tells that there is one. -/
theorem except_exists_of_any {p : A → Prop} [DecidablePred p] {x : Except ε A}
    (h : x.toOption.any (fun a => decide (p a)) = true) : ∃ a, x = .ok a ∧ p a := by
  cases x with
  | error e => cases h
  | ok a => exact ⟨a, rfl, of_decide_eq_true h⟩

theorem except_map_map {f : A → B} {g : B → C} {x : Except ε A} : (x.map f).map g = x.map (g ∘ f) := by
  cases x <;> rfl

/-! ### Faults -/

/-- What a step that fails reports. -/
def fault? : Except ε A → Option ε
  | .ok _ => none
  | .error e => some e

theorem fault?_eq_some_iff {x : Except ε A} {e : ε} : fault? x = some e ↔ x = .error e := by
  cases x <;> simp [fault?]

theorem fault?_eq_none_iff {x : Except ε A} : fault? x = none ↔ ∃ a, x = .ok a := by
  cases x <;> simp [fault?]

theorem fault?_map {f : A → B} {x : Except ε A} : fault? (x.map f) = fault? x := by
  cases x <;> rfl

/-- Of two steps the first that fails is reported. -/
theorem fault?_both {f : A → B → C} {x : Except ε A} {y : Except ε B} :
    fault? (do let a ← x; let b ← y; pure (f a b)) = (fault? x).or (fault? y) := by
  cases x with
  | error e => rfl
  | ok a => cases y <;> rfl

end Typeahead
