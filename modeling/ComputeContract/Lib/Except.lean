import Mathlib.Logic.Basic

/-!
# Results

What a sequence of fallible steps says about its steps.
-/

namespace ComputeContract

variable {ε α β : Type} {x : Except ε α} {f : α → Except ε β} {b : β}

/-- A sequence succeeds when each of its steps does. -/
theorem bind_eq_ok : (x >>= f) = .ok b ↔ ∃ a, x = .ok a ∧ f a = .ok b := by
  cases x <;> simp [bind, Except.bind]

/-- The first step succeeds. -/
theorem ok_bind (a : α) : ((Except.ok a : Except ε α) >>= f) = f a := rfl

/-- A result that is turned into another one. -/
theorem map_eq_ok {g : α → β} : x.map g = .ok b ↔ ∃ a, x = .ok a ∧ g a = b := by
  cases x <;> simp [Except.map]

/-- A step succeeds whatever its error is turned into. -/
theorem mapError_eq_ok {ε' : Type} {g : ε → ε'} {a : α} : x.mapError g = .ok a ↔ x = .ok a := by
  cases x with
  | error e => exact iff_of_false (fun h => by cases h) fun h => by cases h
  | ok b => exact ⟨fun h => congrArg _ (Except.ok.inj h), fun h => congrArg _ (Except.ok.inj h)⟩

/-- A step that succeeds when a condition holds. -/
def require (ok : Bool) (e : ε) : Except ε Unit :=
  if ok then .ok () else .error e

theorem require_eq_ok {ok : Bool} {e : ε} : require ok e = .ok () ↔ ok := by
  cases ok <;> simp [require]

end ComputeContract
