import Mathlib.Order.Basic

/-!
# Computations that can fail

A computation ends with a value, with a panic, which its author holds to be impossible,
or with an error that ends the process.
-/

inductive Failure where
  | panic
  | fatal
deriving DecidableEq

abbrev Outcome (α : Type) := Except Failure α

namespace Outcome

variable {α β : Type}

/-- The value behind a pointer; a nil pointer panics. -/
def deref : Option α → Outcome α
  | none => .error .panic
  | some a => .ok a

lemma deref_eq_ok {o : Option α} {a : α} : deref o = .ok a ↔ o = some a := by
  cases o <;> simp [deref]

/-- The computations before a value. -/
lemma bind_eq_ok {ε : Type} {x : Except ε α} {f : α → Except ε β} {b : β} :
    (x >>= f) = .ok b ↔ ∃ a, x = .ok a ∧ f a = .ok b := by
  cases x with
  | error e => simp [bind, Except.bind]
  | ok a => simp [bind, Except.bind]

lemma map_eq_ok {x : Outcome α} {f : α → β} {b : β} :
    x.map f = .ok b ↔ ∃ a, x = .ok a ∧ f a = b := by
  cases x <;> simp [Except.map]

end Outcome
