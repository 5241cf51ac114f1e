import Mathlib

/-!
# Changes that overwrite

Library `Base`. A change that sets some parts of a state and keeps the others does nothing more
when it is done again, and the same holds of any sequence of such changes. A state that has the
first changes of a sequence in it already is therefore brought by the whole sequence to where the
sequence leads from the start.
-/

namespace Base

variable {σ ε ω : Type*}

/-- What every step keeps, a sequence of steps keeps. -/
theorem foldl_keeps {β : Type*} {g : σ → β} {f : σ → ε → σ} (h : ∀ s e, g (f s e) = g s)
    (es : List ε) (s : σ) : g (es.foldl f s) = g s := by
  induction es generalizing s with
  | nil => rfl
  | cons e es ih => rw [List.foldl_cons, ih, h]

/-- Changes given as data. They can be done one after another, and each is done when it is done
once. -/
structure Overwrites (σ ω : Type*) where
  apply : ω → σ → σ
  skip : ω
  andThen : ω → ω → ω
  apply_skip : ∀ s, apply skip s = s
  apply_andThen : ∀ w w' s, apply (andThen w w') s = apply w' (apply w s)
  apply_apply : ∀ w s, apply w (apply w s) = apply w s

namespace Overwrites

variable {W : Overwrites σ ω} {step : σ → ε → σ}

/-- The function is one of the changes. -/
def Does (W : Overwrites σ ω) (f : σ → σ) : Prop := ∃ w, ∀ s, f s = W.apply w s

/-- Doing nothing is an overwrite. -/
theorem Does.skip : W.Does fun s ↦ s := ⟨W.skip, fun s ↦ (W.apply_skip s).symm⟩

/-- Overwrites one after the other are an overwrite. -/
theorem Does.andThen {f g : σ → σ} (hf : W.Does f) (hg : W.Does g) : W.Does fun s ↦ g (f s) := by
  obtain ⟨w, hw⟩ := hf
  obtain ⟨w', hw'⟩ := hg
  exact ⟨W.andThen w w', fun s ↦ by rw [W.apply_andThen, ← hw, ← hw']⟩

private theorem Does.again {f : σ → σ} (h : W.Does f) (s : σ) : f (f s) = f s := by
  obtain ⟨w, hw⟩ := h
  rw [hw, hw, W.apply_apply]

/-- A sequence of changes is one change. -/
theorem Does.foldl {es : List ε} (h : ∀ e ∈ es, W.Does fun s ↦ step s e) :
    W.Does fun s ↦ es.foldl step s := by
  induction es with
  | nil => exact Does.skip
  | cons e es ih =>
    rw [List.forall_mem_cons] at h
    exact h.1.andThen (ih h.2)

/-- A state that has the first changes in it is brought where the changes lead from the start. -/
theorem Does.replay {es es' : List ε} (h : ∀ e ∈ es, W.Does fun s ↦ step s e) (s : σ) :
    (es ++ es').foldl step (es.foldl step s) = (es ++ es').foldl step s := by
  rw [List.foldl_append, List.foldl_append, (Does.foldl h).again]

end Overwrites

end Base
