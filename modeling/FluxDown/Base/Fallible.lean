import Mathlib

/-!
# Calls that may fail

Library `Base`. A sequence of calls succeeds when each of them does; loops succeed when every turn
does.
-/

namespace Base

variable {ε α β : Type}

/-- A sequence succeeds when both of its parts do. -/
theorem bind_eq_ok {x : Except ε α} {f : α → Except ε β} {b : β} :
    (x >>= f) = .ok b ↔ ∃ a, x = .ok a ∧ f a = .ok b := by
  cases x <;> simp [bind, Except.bind]

/-- A loop of checks passes when every check does. -/
theorem forM_eq_ok {f : α → Except ε Unit} {l : List α} :
    l.forM f = .ok () ↔ ∀ a ∈ l, f a = .ok () := by
  induction l with
  | nil => simp [pure, Except.pure]
  | cons a l ih =>
    have hstep : (a :: l).forM f = f a >>= fun _ ↦ l.forM f := rfl
    simp only [hstep, bind_eq_ok, ih, List.forall_mem_cons, exists_and_right]
    exact and_congr_left' ⟨fun ⟨_, h⟩ ↦ h, fun h ↦ ⟨(), h⟩⟩

/-- Turns that all pass give their values. -/
theorem mapM_eq_ok {f : α → Except ε β} {g : α → β} {l : List α} (h : ∀ a ∈ l, f a = .ok (g a)) :
    l.mapM f = .ok (l.map g) := by
  induction l with
  | nil => rfl
  | cons a l ih =>
    rw [List.forall_mem_cons] at h
    rw [List.mapM_cons, h.1, ih h.2]
    rfl

end Base
