import FluxDown.Base.SortedMap

/-!
# Maps whose keys are compared through a fold

Library `Base`. Keys of a map that count as the same key when a fold (such as lower case) sends them
to one value. A value is put at a key after every key like it is removed. Puts of keys that are not
alike commute, so a list of them may be put in any order.
-/

namespace Base.SortedMap

universe u v w

variable {κ : Type u} {α : Type v} {ι : Type w} [LinearOrder κ] [DecidableEq ι]

/-- Without the keys like `k`. -/
def removeLike (fold : κ → ι) (m : SortedMap κ α) (k : κ) : SortedMap κ α :=
  m.filter fun a _ ↦ fold a ≠ fold k

/-- Put `v` at `k` in the place of the keys like it. -/
def putLike (fold : κ → ι) (m : SortedMap κ α) (k : κ) (v : α) : SortedMap κ α :=
  (m.removeLike fold k).insert k v

/-- Put the entries of a list, from the first on. -/
def putAllLike (fold : κ → ι) (m : SortedMap κ α) (es : List (κ × α)) : SortedMap κ α :=
  es.foldl (fun acc e ↦ acc.putLike fold e.1 e.2) m

/-- No two keys are alike. -/
def Unlike (fold : κ → ι) (m : SortedMap κ α) : Prop :=
  ∀ a ∈ m.keys, ∀ b ∈ m.keys, fold a = fold b → a = b

variable {fold : κ → ι} {m : SortedMap κ α}

private theorem get?_removeLike (k a : κ) :
    (m.removeLike fold k).get? a = if fold a = fold k then none else m.get? a := by
  rw [removeLike, get?_filter]
  split
  · next h => cases m.get? a <;> simp [h]
  · next h => cases m.get? a <;> simp [h]

private theorem get?_putLike (k a : κ) (v : α) :
    (m.putLike fold k v).get? a =
      if a = k then some v else if fold a = fold k then none else m.get? a := by
  rw [putLike, get?_insert, get?_removeLike]

/-- The keys that are left are those that are not alike. -/
theorem mem_keys_removeLike {k a : κ} :
    a ∈ (m.removeLike fold k).keys ↔ fold a ≠ fold k ∧ a ∈ m.keys := by
  rw [mem_keys_iff, mem_keys_iff, get?_removeLike]
  split <;> simp [*]

private theorem mem_keys_putLike {k a : κ} {v : α} :
    a ∈ (m.putLike fold k v).keys ↔ a = k ∨ fold a ≠ fold k ∧ a ∈ m.keys := by
  rw [mem_keys_iff, mem_keys_iff, get?_putLike]
  split
  · next h => simp [h]
  · next h => split <;> simp [*]

namespace Unlike

omit [DecidableEq ι] in
/-- The empty map has no keys that are alike. -/
theorem empty : (SortedMap.empty : SortedMap κ α).Unlike fold := by
  intro a ha
  simp [keys] at ha

/-- Removing keys leaves none that are alike. -/
theorem removeLike (h : m.Unlike fold) (k : κ) : (m.removeLike fold k).Unlike fold := by
  intro a ha b hb
  exact h a (mem_keys_removeLike.mp ha).2 b (mem_keys_removeLike.mp hb).2

/-- Putting a key in place of those like it leaves none that are alike. -/
theorem putLike (h : m.Unlike fold) (k : κ) (v : α) : (m.putLike fold k v).Unlike fold := by
  intro a ha b hb heq
  rcases mem_keys_putLike.mp ha with rfl | ⟨hne, ha⟩ <;>
    rcases mem_keys_putLike.mp hb with rfl | ⟨hne', hb⟩
  · rfl
  · exact absurd heq.symm hne'
  · exact absurd heq hne
  · exact h a ha b hb heq

/-- So does putting many. -/
theorem putAllLike (h : m.Unlike fold) (es : List (κ × α)) : (m.putAllLike fold es).Unlike fold := by
  induction es generalizing m with
  | nil => exact h
  | cons e es ih => exact ih (h.putLike e.1 e.2)

end Unlike

/-- A key of the result was there before or was put. -/
theorem mem_keys_putAllLike {es : List (κ × α)} {a : κ} (ha : a ∈ (m.putAllLike fold es).keys) :
    a ∈ m.keys ∨ a ∈ es.map Prod.fst := by
  induction es generalizing m with
  | nil => exact .inl ha
  | cons e es ih =>
    rcases ih ha with ha | ha
    · rcases mem_keys_putLike.mp ha with rfl | ⟨-, ha⟩
      · exact .inr List.mem_cons_self
      · exact .inl ha
    · exact .inr (List.mem_cons_of_mem _ ha)

/-- Puts of keys that are not alike commute. -/
theorem putLike_comm {k k' : κ} (hne : fold k ≠ fold k') (v v' : α) :
    (m.putLike fold k v).putLike fold k' v' = (m.putLike fold k' v').putLike fold k v := by
  apply ext_get?
  intro a
  have hkey : k ≠ k' := fun h ↦ hne (congrArg fold h)
  simp only [get?_putLike]
  by_cases ha : a = k
  · subst ha
    simp [hkey, hne]
  · by_cases ha' : a = k'
    · subst ha'
      simp [hne.symm, ha]
    · simp only [if_neg ha, if_neg ha']
      split <;> split <;> rfl

/-- The order of a list of keys none of which are alike does not matter. -/
theorem putAllLike_perm {es es' : List (κ × α)} (hperm : es.Perm es')
    (h : es.Pairwise fun e e' ↦ fold e.1 ≠ fold e'.1) :
    m.putAllLike fold es = m.putAllLike fold es' := by
  have hsymm : Std.Symm fun e e' : κ × α ↦ fold e.1 ≠ fold e'.1 := ⟨fun _ _ hne ↦ hne.symm⟩
  apply List.Perm.foldl_eq' hperm
  intro e he e' he' acc
  by_cases heq : e = e'
  · rw [heq]
  · exact putLike_comm (h.forall he he' heq) e.2 e'.2

/-- Without a key like `a` in the list, what was at `a` stays. -/
theorem get?_putAllLike_of_unlike {es : List (κ × α)} {a : κ} (h : ∀ e ∈ es, fold a ≠ fold e.1) :
    (m.putAllLike fold es).get? a = m.get? a := by
  induction es generalizing m with
  | nil => rfl
  | cons e es ih =>
    have hne := h e List.mem_cons_self
    have hstep : m.putAllLike fold (e :: es) = (m.putLike fold e.1 e.2).putAllLike fold es := rfl
    rw [hstep, ih fun e' he' ↦ h e' (List.mem_cons_of_mem _ he'), get?_putLike,
      if_neg fun heq ↦ hne (congrArg fold heq), if_neg hne]

/-- Every entry of a list of keys none of which are alike is put. -/
theorem get?_putAllLike_of_mem {es : List (κ × α)}
    (h : es.Pairwise fun e e' ↦ fold e.1 ≠ fold e'.1) {k : κ} {v : α} (hmem : (k, v) ∈ es) :
    (m.putAllLike fold es).get? k = some v := by
  induction es generalizing m with
  | nil => exact absurd hmem List.not_mem_nil
  | cons e es ih =>
    have hstep : m.putAllLike fold (e :: es) = (m.putLike fold e.1 e.2).putAllLike fold es := rfl
    rw [List.pairwise_cons] at h
    rcases List.mem_cons.mp hmem with rfl | hmem
    · rw [hstep, get?_putAllLike_of_unlike h.1, get?_putLike, if_pos rfl]
    · exact hstep ▸ ih h.2 hmem

end Base.SortedMap
