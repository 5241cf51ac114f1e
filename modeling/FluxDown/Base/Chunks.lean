import Mathlib

/-!
# Lists in chunks

Library `Base`. A list is cut into chunks of one length, of which only the last may be shorter.
-/

namespace Base

variable {α : Type*}

/-- The chunks of so many elements. -/
def chunks (size : Nat) (l : List α) : List (List α) :=
  (List.range ((l.length + size - 1) / size)).map fun i ↦ (l.drop (size * i)).take size

variable {size i : Nat} {l : List α}

/-- The number of pieces. -/
@[simp] theorem length_chunks : (chunks size l).length = (l.length + size - 1) / size := by
  simp [chunks]

private theorem lt_div_iff (hsize : 0 < size) :
    i < (l.length + size - 1) / size ↔ size * i < l.length := by
  rw [Nat.lt_iff_add_one_le, Nat.le_div_iff_mul_le hsize, Nat.add_mul, Nat.one_mul,
    Nat.mul_comm i size]
  omega

/-- The piece at a place. -/
theorem getElem?_chunks (hsize : 0 < size) (h : size * i < l.length) :
    (chunks size l)[i]? = some ((l.drop (size * i)).take size) := by
  have hi := (lt_div_iff hsize).mpr h
  simp [chunks, hi]

/-- Behind the last piece there is none. -/
theorem getElem?_chunks_of_ge (hsize : 0 < size) (h : l.length ≤ size * i) :
    (chunks size l)[i]? = none := by
  rw [List.getElem?_eq_none_iff, length_chunks]
  exact Nat.le_of_not_lt fun hi ↦ absurd ((lt_div_iff hsize).mp hi) (Nat.not_lt_of_le h)

end Base
