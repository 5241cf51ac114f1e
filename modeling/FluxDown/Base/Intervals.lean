import Mathlib

/-!
# Lists of half-open intervals

Library `Base`. Intervals that include their first point and not their last, the points a list of
them covers, and lists kept in order with gaps between the intervals, which name each covered
point once and as shortly as possible.
-/

namespace Base

section

variable {α : Type*} [LinearOrder α] {l l' : List (α × α)}

/-- The point is in one of the intervals. -/
def Covered (l : List (α × α)) (x : α) : Prop := ∃ r ∈ l, r.1 ≤ x ∧ x < r.2

instance (l : List (α × α)) (x : α) : Decidable (Covered l x) :=
  inferInstanceAs (Decidable (∃ r ∈ l, r.1 ≤ x ∧ x < r.2))

/-- No interval covers nothing. -/
@[simp] theorem covered_nil (x : α) : ¬ Covered [] x := by simp [Covered]

/-- The first interval covers, or the others do. -/
@[simp] theorem covered_cons (r : α × α) (x : α) :
    Covered (r :: l) x ↔ (r.1 ≤ x ∧ x < r.2) ∨ Covered l x := by
  simp [Covered]

/-- The intervals of two lists cover what either covers. -/
@[simp] theorem covered_append (x : α) :
    Covered (l ++ l') x ↔ Covered l x ∨ Covered l' x := by
  simp [Covered, or_and_right, exists_or]

/-- The order of intervals does not matter for what they cover. -/
theorem covered_perm (h : l.Perm l') (x : α) : Covered l x ↔ Covered l' x := by
  simp [Covered, h.mem_iff]

/-- Intervals with a point each, in order, with a gap between any two. -/
structure Separated (l : List (α × α)) : Prop where
  nonempty : ∀ r ∈ l, r.1 < r.2
  gaps : l.Pairwise fun a b ↦ a.2 < b.1

namespace Separated

/-- No intervals are apart. -/
theorem nil : Separated ([] : List (α × α)) := ⟨by simp, List.Pairwise.nil⟩

/-- A single interval is apart. -/
theorem singleton {r : α × α} (h : r.1 < r.2) : Separated [r] :=
  ⟨by simpa using h, List.pairwise_singleton _ _⟩

/-- Without the first, the intervals are apart. -/
theorem tail {r : α × α} (h : Separated (r :: l)) : Separated l :=
  ⟨fun r' hr' ↦ h.nonempty r' (List.mem_cons_of_mem _ hr'), (List.pairwise_cons.mp h.gaps).2⟩

/-- An interval before the others is apart from them. -/
theorem cons {r : α × α} (h : Separated l) (hr : r.1 < r.2) (hgap : ∀ r' ∈ l, r.2 < r'.1) :
    Separated (r :: l) :=
  ⟨List.forall_mem_cons.mpr ⟨hr, h.nonempty⟩, List.pairwise_cons.mpr ⟨hgap, h.gaps⟩⟩

/-- What the rest covers comes after the first interval. -/
theorem lt_of_covered {r : α × α} (h : Separated (r :: l)) {x : α} (hx : Covered l x) :
    r.2 < x := by
  obtain ⟨r', hmem, hle, -⟩ := hx
  exact lt_of_lt_of_le ((List.pairwise_cons.mp h.gaps).1 r' hmem) hle

end Separated

end

/-- The lengths of separated intervals add up to the number of points they cover. -/
theorem Separated.sum_length {n : Nat} : ∀ {l : List (Nat × Nat)}, Separated l →
    (∀ r ∈ l, r.2 ≤ n) →
      (l.map fun r ↦ r.2 - r.1).sum = ((Finset.range n).filter (Covered l)).card
  | [], _, _ => by simp
  | r :: l, h, hbound => by
    have hsplit : (Finset.range n).filter (Covered (r :: l)) =
        Finset.Ico r.1 r.2 ∪ (Finset.range n).filter (Covered l) := by
      have hr := hbound r List.mem_cons_self
      ext x
      simp only [Finset.mem_filter, Finset.mem_range, covered_cons, Finset.mem_union,
        Finset.mem_Ico]
      constructor
      · rintro ⟨hx, hfirst | hrest⟩
        · exact .inl hfirst
        · exact .inr ⟨hx, hrest⟩
      · rintro (hfirst | ⟨hx, hrest⟩)
        · exact ⟨by omega, .inl hfirst⟩
        · exact ⟨hx, .inr hrest⟩
    have hdisjoint : Disjoint (Finset.Ico r.1 r.2) ((Finset.range n).filter (Covered l)) := by
      rw [Finset.disjoint_left]
      intro x hfirst hrest
      have hafter := h.lt_of_covered (Finset.mem_filter.mp hrest).2
      rw [Finset.mem_Ico] at hfirst
      omega
    rw [List.map_cons, List.sum_cons, hsplit, Finset.card_union_of_disjoint hdisjoint,
      Nat.card_Ico, Separated.sum_length h.tail fun r' hr' ↦ hbound r' (List.mem_cons_of_mem _ hr')]

end Base
