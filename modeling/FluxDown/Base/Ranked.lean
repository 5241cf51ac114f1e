import Mathlib

/-!
# Lists that increase in a rank

Library `Base`. A list whose elements strictly increase in a rank is determined by its
members, so two ways of building it need only be compared member by member. Sorting by the
rank reaches it from any rearrangement.
-/

namespace Base

variable {α β : Type*} [LinearOrder β] {rank : α → β} {l l' : List α}

/-- The rank strictly increases along the list. -/
def Increasing (rank : α → β) (l : List α) : Prop := l.Pairwise fun a b ↦ rank a < rank b

instance (rank : α → β) (l : List α) : Decidable (Increasing rank l) :=
  inferInstanceAs (Decidable (l.Pairwise _))

/-- Stable sort by the rank. -/
def sortByRank (rank : α → β) (l : List α) : List α := l.mergeSort fun a b ↦ rank a ≤ rank b

/-- Increasing rows are distinct. -/
theorem Increasing.nodup (h : Increasing rank l) : l.Nodup :=
  h.imp fun hlt heq ↦ (heq ▸ hlt).false

/-- Members of equal rank are equal. -/
theorem Increasing.eq_of_rank_eq (h : Increasing rank l) {a b : α} (ha : a ∈ l) (hb : b ∈ l)
    (heq : rank a = rank b) : a = b := by
  have hmap : (l.map rank).Nodup :=
    (List.pairwise_map.mpr h).imp fun hlt heq ↦ (heq ▸ hlt).false
  exact List.inj_on_of_nodup_map hmap ha hb heq

/-- An increasing list is determined by its members up to rearrangement. -/
theorem Increasing.eq_of_perm (h : Increasing rank l) (h' : Increasing rank l')
    (hperm : l.Perm l') : l = l' :=
  hperm.eq_of_pairwise (fun _ _ _ _ hlt hgt ↦ absurd (hlt.trans hgt) (lt_irrefl _)) h h'

/-- An increasing list is determined by its members. -/
theorem Increasing.ext (h : Increasing rank l) (h' : Increasing rank l')
    (hmem : ∀ a, a ∈ l ↔ a ∈ l') : l = l' :=
  h.eq_of_perm h' ((List.perm_ext_iff_of_nodup h.nodup h'.nodup).mpr hmem)

/-- A list sorted by the rank is the increasing list of its members. -/
theorem Increasing.eq_of_sorted (h : Increasing rank l)
    (hsorted : l'.Pairwise fun a b ↦ rank a ≤ rank b) (hperm : l'.Perm l) : l' = l := by
  refine hperm.eq_of_pairwise (fun a b ha hb hab hba ↦ ?_) hsorted (h.imp le_of_lt)
  exact h.eq_of_rank_eq (hperm.mem_iff.mp ha) hb (le_antisymm hab hba)

/-- Sorted rows are in order. -/
theorem pairwise_sortByRank (l : List α) :
    (sortByRank rank l).Pairwise fun a b ↦ rank a ≤ rank b := by
  have hsorted : (sortByRank rank l).Pairwise fun a b ↦ decide (rank a ≤ rank b) = true :=
    List.pairwise_mergeSort
      (fun a b c hab hbc ↦ by
        simp only [decide_eq_true_eq] at hab hbc ⊢
        exact hab.trans hbc)
      (fun a b ↦ by
        simp only [Bool.or_eq_true, decide_eq_true_eq]
        exact le_total (rank a) (rank b)) l
  exact hsorted.imp of_decide_eq_true

/-- Sorting keeps the rows. -/
theorem perm_sortByRank (l : List α) : (sortByRank rank l).Perm l := List.mergeSort_perm l _

/-- Sorting reaches the increasing list from any rearrangement. -/
theorem sortByRank_eq (h : Increasing rank l) (hperm : l'.Perm l) : sortByRank rank l' = l :=
  h.eq_of_sorted (pairwise_sortByRank l') ((perm_sortByRank l').trans hperm)

end Base
