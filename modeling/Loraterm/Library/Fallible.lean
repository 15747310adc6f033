import Mathlib

/-!
# Computations that can fail

When a chain of fallible steps succeeds, each of its steps did.
-/

namespace Fallible

universe u

variable {ε ε' : Type*} {α β : Type u}

/-- A chain of two steps succeeds exactly when both do. -/
theorem bind_eq_ok {first : Except ε α} {rest : α → Except ε β} {result : β} :
    (first >>= rest) = .ok result ↔ ∃ value, first = .ok value ∧ rest value = .ok result := by
  cases first with
  | error reason => simp [bind, Except.bind]
  | ok value => simp [bind, Except.bind]

/-- Putting a context on an error does not touch a success. -/
theorem mapError_eq_ok {step : Except ε α} {context : ε → ε'} {value : α} :
    step.mapError context = .ok value ↔ step = .ok value := by
  cases step with
  | error reason => simp [Except.mapError]
  | ok value => simp [Except.mapError]

end Fallible
