import Mathlib

/-!
# Contents with holes

Library `Base`. A content with holes has a value at some positions. A window of it is read with a
default in the holes; a window is joined from shorter ones, is the default where there are only
holes, and is a part of a store where the content is kept in one. Lists are written over in place.
-/

namespace Base

variable {α : Type*}

section Window

variable {content : Nat → Option α} {default : α} {offset : Nat}

/-- The values at `len` positions from `offset`, with the default in the holes. -/
def window (content : Nat → Option α) (default : α) (offset len : Nat) : List α :=
  (List.range len).map fun i ↦ (content (offset + i)).getD default

/-- One of `len` positions from `offset` is a hole. -/
def HasHole (content : Nat → Option α) (offset len : Nat) : Prop :=
  ∃ i < len, content (offset + i) = none

/-- A window has its length. -/
@[simp] theorem length_window (len : Nat) : (window content default offset len).length = len := by
  simp [window]

/-- A window of no length is empty. -/
@[simp] theorem window_zero : window content default offset 0 = [] := rfl

/-- A place of a window. -/
theorem getElem?_window {len i : Nat} (h : i < len) :
    (window content default offset len)[i]? = some ((content (offset + i)).getD default) := by
  simp [window, h]

/-- A window is its two parts. -/
theorem window_add (m n : Nat) : window content default offset (m + n) =
    window content default offset m ++ window content default (offset + m) n := by
  simp [window, List.range_add, Nat.add_assoc]

/-- A window of no length has no hole. -/
theorem not_hasHole_zero : ¬ HasHole content offset 0 := by simp [HasHole]

/-- A window has a hole when one of its parts does. -/
theorem hasHole_add (m n : Nat) : HasHole content offset (m + n) ↔
    HasHole content offset m ∨ HasHole content (offset + m) n := by
  constructor
  · rintro ⟨i, hi, hnone⟩
    by_cases hfirst : i < m
    · exact .inl ⟨i, hfirst, hnone⟩
    · refine .inr ⟨i - m, by omega, ?_⟩
      rwa [show offset + m + (i - m) = offset + i by omega]
  · rintro (⟨i, hi, hnone⟩ | ⟨i, hi, hnone⟩)
    · exact ⟨i, by omega, hnone⟩
    · exact ⟨m + i, by omega, by rwa [← Nat.add_assoc]⟩

/-- A window on holes. -/
theorem window_of_none {len : Nat} (h : ∀ i < len, content (offset + i) = none) :
    window content default offset len = List.replicate len default := by
  apply List.ext_getElem?
  intro i
  by_cases hi : i < len
  · rw [getElem?_window hi, h i hi, List.getElem?_replicate_of_lt hi, Option.getD_none]
  · rw [List.getElem?_eq_none (by simpa using hi), List.getElem?_eq_none (by simpa using hi)]

/-- A window on what is kept in a store. -/
theorem window_of_store {len pos : Nat} {store : List α} (hfit : pos + len ≤ store.length)
    (h : ∀ i < len, content (offset + i) = store[pos + i]?) :
    window content default offset len = (store.drop pos).take len := by
  apply List.ext_getElem?
  intro i
  by_cases hi : i < len
  · rw [getElem?_window hi, h i hi, List.getElem?_take_of_lt hi, List.getElem?_drop,
      List.getElem?_eq_getElem (by omega), Option.getD_some]
  · rw [List.getElem?_eq_none (by simpa using hi),
      List.getElem?_eq_none (by rw [List.length_take]; omega)]

/-- Contents that are those of a store have no hole. -/
theorem not_hasHole_of_store {len pos : Nat} {store : List α} (hfit : pos + len ≤ store.length)
    (h : ∀ i < len, content (offset + i) = store[pos + i]?) : ¬ HasHole content offset len := by
  rintro ⟨i, hi, hnone⟩
  rw [h i hi, List.getElem?_eq_none_iff] at hnone
  omega

end Window

/-- The list with the values in place of those from `pos` on. -/
def overwrite (l : List α) (pos : Nat) (values : List α) : List α :=
  l.take pos ++ values ++ l.drop (pos + values.length)

section Overwrite

variable {l values : List α} {pos : Nat}

/-- Overwriting inside a list keeps its length. -/
theorem length_overwrite (h : pos + values.length ≤ l.length) :
    (overwrite l pos values).length = l.length := by
  simp only [overwrite, List.length_append, List.length_take, List.length_drop]
  omega

/-- What is before the end of the values that were written. -/
theorem take_overwrite (h : pos ≤ l.length) :
    (overwrite l pos values).take (pos + values.length) = l.take pos ++ values := by
  have hlength : (l.take pos ++ values).length = pos + values.length := by
    rw [List.length_append, List.length_take, Nat.min_eq_left h]
  rw [overwrite, ← hlength, List.take_left]

/-- What is before the values stays. -/
theorem take_overwrite_of_le {n : Nat} (hn : n ≤ pos) (h : pos ≤ l.length) :
    (overwrite l pos values).take n = l.take n := by
  rw [overwrite, List.append_assoc, List.take_append_of_le_length (by rw [List.length_take]; omega),
    List.take_take, Nat.min_eq_left hn]

end Overwrite

end Base
