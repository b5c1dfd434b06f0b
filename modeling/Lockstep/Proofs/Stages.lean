/-! Computations in stages, of which the first failure is the end.

A computation in stages gives a value exactly if each stage gives one for the next, and it fails
with a cause exactly if some stage does after all before it gave their values. -/
namespace Lockstep

variable {ε α β : Type}

theorem bind_eq_ok_iff {x : Except ε α} {f : α → Except ε β} {value : β} :
    x >>= f = .ok value ↔ ∃ middle, x = .ok middle ∧ f middle = .ok value := by
  cases x <;> simp [bind, Except.bind]

theorem bind_eq_error_iff {x : Except ε α} {f : α → Except ε β} {cause : ε} :
    x >>= f = .error cause ↔
      x = .error cause ∨ ∃ middle, x = .ok middle ∧ f middle = .error cause := by
  cases x <;> simp [bind, Except.bind]

theorem map_eq_ok_iff {x : Except ε α} {f : α → β} {value : β} :
    x.map f = .ok value ↔ ∃ middle, x = .ok middle ∧ value = f middle := by
  cases x <;> simp [Except.map, eq_comm]

theorem mapM_eq_ok_iff {f : α → Except ε β} {given : Option α} {value : Option β} :
    given.mapM f = .ok value ↔ Option.Rel (fun item result => f item = .ok result) given value := by
  cases given with
  | none =>
    constructor
    · intro h
      cases h
      exact .none
    · intro h
      cases h
      rfl
  | some item =>
    show f item >>= (fun result => .ok (some result)) = .ok value ↔ _
    rw [bind_eq_ok_iff]
    constructor
    · intro h
      obtain ⟨result, hresult, hvalue⟩ := h
      cases hvalue
      exact .some hresult
    · intro h
      cases h with
      | some hresult => exact ⟨_, hresult, rfl⟩

end Lockstep
