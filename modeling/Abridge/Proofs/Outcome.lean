/-!
Results of steps that may fail: which steps succeeded when all of them together did, and which one
failed when they did not.
-/
namespace Abridge

variable {ε α β : Type}

/-- Peels the first of two steps. -/
theorem bind_eq_ok {x : Except ε α} {next : α → Except ε β} {b : β} (h : x >>= next = .ok b) :
    ∃ a, x = .ok a ∧ next a = .ok b := by
  cases x with
  | error f => cases h
  | ok a => exact ⟨a, rfl, h⟩

theorem bind_of_eq_ok {x : Except ε α} {a : α} (h : x = .ok a) (next : α → Except ε β) :
    x >>= next = next a := by
  rw [h]
  rfl

theorem map_eq_ok {x : Except ε α} {f : α → β} {b : β} (h : x.map f = .ok b) :
    ∃ a, x = .ok a ∧ b = f a := by
  cases x with
  | error e => cases h
  | ok a => exact ⟨a, rfl, (Except.ok.inj h).symm⟩

theorem bind_eq_error {x : Except ε α} {next : α → Except ε β} {f : ε}
    (h : x >>= next = .error f) : x = .error f ∨ ∃ a, x = .ok a ∧ next a = .error f := by
  cases x with
  | error e => exact Or.inl (Except.error.inj h ▸ rfl)
  | ok a => exact Or.inr ⟨a, rfl, h⟩

theorem map_eq_error {x : Except ε α} {g : α → β} {f : ε} (h : x.map g = .error f) :
    x = .error f := by
  cases x with
  | error e => exact Except.error.inj h ▸ rfl
  | ok a => cases h

/-! ### Faults -/

/-- The fault of a step that failed. -/
def failure? : Except ε α → Option ε
  | .ok _ => none
  | .error f => some f

theorem failure?_eq_some_iff {x : Except ε α} {f : ε} : failure? x = some f ↔ x = .error f := by
  cases x <;> simp [failure?]

theorem failure?_eq_none_iff {x : Except ε α} : failure? x = none ↔ ∃ a, x = .ok a := by
  cases x <;> simp [failure?]

theorem failure?_map (g : α → β) (x : Except ε α) : failure? (x.map g) = failure? x := by
  cases x <;> rfl

/-- Two steps whose results are put together fail with the fault of the first one that fails. -/
theorem failure?_both {γ : Type} (x : Except ε α) (y : Except ε β) (g : α → β → γ) :
    failure? (x >>= fun a => y >>= fun b => pure (g a b)) = (failure? x).or (failure? y) := by
  cases x <;> cases y <;> rfl

end Abridge
