import Mathlib.Data.List.Nodup

/-!
# Pointwise changes of a function

A memory is a function from addresses to values. A loop over a list changes the memory
at the address of each element.
-/
namespace Pointwise

variable {α β γ : Type*} [DecidableEq α]

def modify (m : α → β) (a : α) (f : β → β) : α → β := Function.update m a (f (m a))

@[simp] lemma modify_self (m : α → β) (a : α) (f : β → β) : modify m a f a = f (m a) :=
  Function.update_self a _ m

lemma modify_of_ne (m : α → β) {a b : α} (f : β → β) (h : b ≠ a) : modify m a f b = m b :=
  Function.update_of_ne h _ m

/-- A change that keeps a part of every value keeps that part of the memory. -/
lemma modify_congr {δ : Type*} {m : α → β} {a : α} {f : β → β} (p : β → δ)
    (h : ∀ x, p (f x) = p x) (b : α) : p (modify m a f b) = p (m b) := by
  by_cases hb : b = a
  · rw [hb, modify_self, h]
  · rw [modify_of_ne m f hb]

/-- The changes of a loop over the list. -/
def modifyAll (m : α → β) (addr : γ → α) (f : γ → β → β) (cs : List γ) : α → β :=
  cs.foldl (fun m c => modify m (addr c) (f c)) m

end Pointwise
