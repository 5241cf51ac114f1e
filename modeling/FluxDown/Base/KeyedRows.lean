import Mathlib

/-!
# Tables of keyed rows

Library `Base`. A table is a list of rows with a key; the last row of a key counts, as an
index from keys to positions that is filled from the front has it. Lookup, in-place update
of the row that counts, and how the two act on removal, insertion at the end and updates
under another key.
-/

namespace Base

variable {α κ : Type*} [DecidableEq κ] {key : α → κ}

/-- The last row with the key. -/
def lastRow? (key : α → κ) (k : κ) : List α → Option α
  | [] => none
  | row :: rows => match lastRow? key k rows with
    | some found => some found
    | none => if key row = k then some row else none

/-- Rewrite the last row with the key. -/
def modifyRow (key : α → κ) (k : κ) (f : α → α) : List α → List α
  | [] => []
  | row :: rows => match lastRow? key k rows with
    | some _ => row :: modifyRow key k f rows
    | none => if key row = k then f row :: rows else row :: rows

/-- Replace the last row with the key of `row`, or add `row` at the end. -/
def upsertRow (key : α → κ) (row : α) (rows : List α) : List α :=
  if (lastRow? key (key row) rows).isSome then modifyRow key (key row) (fun _ ↦ row) rows
  else rows ++ [row]

section Lookup

/-- An empty table has no row. -/
@[simp] theorem lastRow?_nil (k : κ) : lastRow? key k [] = none := rfl

/-- The last row of a key is behind the first row. -/
theorem lastRow?_cons (k : κ) (row : α) (rows : List α) :
    lastRow? key k (row :: rows) =
      (lastRow? key k rows).or (if key row = k then some row else none) := by
  rw [lastRow?]
  cases lastRow? key k rows <;> rfl

/-- The last row of a key is in the second table, if it is there. -/
theorem lastRow?_append (k : κ) (rows rows' : List α) :
    lastRow? key k (rows ++ rows') = (lastRow? key k rows').or (lastRow? key k rows) := by
  induction rows with
  | nil => simp
  | cons row rows ih => rw [List.cons_append, lastRow?_cons, ih, lastRow?_cons, Option.or_assoc]

/-- A key without a row is the key of none. -/
theorem lastRow?_eq_none_iff {k : κ} {rows : List α} :
    lastRow? key k rows = none ↔ ∀ row ∈ rows, key row ≠ k := by
  induction rows with
  | nil => simp
  | cons row rows ih =>
    rw [lastRow?_cons, Option.or_eq_none_iff, ih, List.forall_mem_cons, and_comm]
    apply and_congr_left'
    split <;> simp_all

/-- The last row of a key is a row with that key. -/
theorem lastRow?_eq_some {k : κ} {rows : List α} {row : α} (h : lastRow? key k rows = some row) :
    row ∈ rows ∧ key row = k := by
  induction rows with
  | nil => cases h
  | cons first rows ih =>
    rw [lastRow?_cons, Option.or_eq_some_iff] at h
    cases h with
    | inl h => exact ⟨List.mem_cons_of_mem _ (ih h).1, (ih h).2⟩
    | inr h =>
      by_cases hkey : key first = k
      · rw [if_pos hkey, Option.some.injEq] at h
        exact h.2 ▸ ⟨List.mem_cons_self, hkey⟩
      · rw [if_neg hkey] at h
        cases h.2

/-- Where keys are distinct, the last row of a key is its only one. -/
theorem lastRow?_eq_some_iff {rows : List α} (hnodup : (rows.map key).Nodup) {k : κ} {row : α} :
    lastRow? key k rows = some row ↔ row ∈ rows ∧ key row = k := by
  constructor
  · exact lastRow?_eq_some
  · intro ⟨hmem, hkey⟩
    cases hfound : lastRow? key k rows with
    | none => exact absurd hkey (lastRow?_eq_none_iff.mp hfound row hmem)
    | some found =>
      have hspec := lastRow?_eq_some hfound
      exact congrArg some (List.inj_on_of_nodup_map hnodup hspec.1 hmem (hspec.2.trans hkey.symm))

/-- Filtering rows by their keys takes out whole keys. -/
theorem lastRow?_filter (ids : List κ) (k : κ) (rows : List α) :
    lastRow? key k (rows.filter fun row ↦ key row ∉ ids) =
      if k ∈ ids then none else lastRow? key k rows := by
  induction rows with
  | nil => simp
  | cons row rows ih =>
    by_cases hrow : key row ∈ ids
    · rw [List.filter_cons_of_neg (by simpa using hrow), ih, lastRow?_cons]
      by_cases hk : k ∈ ids
      · rw [if_pos hk, if_pos hk]
      · have hne : key row ≠ k := fun heq ↦ hk (heq ▸ hrow)
        rw [if_neg hk, if_neg hk, if_neg hne, Option.or_none]
    · rw [List.filter_cons_of_pos (by simpa using hrow), lastRow?_cons, ih, lastRow?_cons]
      by_cases hk : k ∈ ids
      · have hne : key row ≠ k := fun heq ↦ hrow (heq ▸ hk)
        rw [if_pos hk, if_pos hk, if_neg hne, Option.or_none]
      · rw [if_neg hk, if_neg hk]

end Lookup

section Modify

variable {f g : α → α}

/-- A key without a row changes nothing. -/
theorem modifyRow_of_none {k : κ} {rows : List α} (h : lastRow? key k rows = none) :
    modifyRow key k f rows = rows := by
  cases rows with
  | nil => rfl
  | cons row rows =>
    rw [lastRow?_eq_none_iff, List.forall_mem_cons] at h
    rw [modifyRow, lastRow?_eq_none_iff.mpr h.2]
    exact if_neg h.1

/-- Rows that are written as they are stay. -/
theorem modifyRow_self (k : κ) (rows : List α) : modifyRow key k (fun row ↦ row) rows = rows := by
  induction rows with
  | nil => rfl
  | cons row rows ih =>
    rw [modifyRow]
    split
    · rw [ih]
    · rw [ite_self]

private theorem modifyRow_cons_of_some {k : κ} {row found : α} {rows : List α}
    (h : lastRow? key k rows = some found) :
    modifyRow key k f (row :: rows) = row :: modifyRow key k f rows := by
  rw [modifyRow, h]

private theorem modifyRow_cons_of_none {k : κ} {row : α} {rows : List α}
    (h : lastRow? key k rows = none) :
    modifyRow key k f (row :: rows) = (if key row = k then f row else row) :: rows := by
  rw [modifyRow, h]
  by_cases hkey : key row = k <;> simp [hkey]

/-- The update keeps a row under the key `k`. -/
def KeepsKey (key : α → κ) (k : κ) (f : α → α) : Prop := ∀ row, key row = k → key (f row) = k

private theorem key_ite {k : κ} (hf : KeepsKey key k f) (row : α) :
    key (if key row = k then f row else row) = key row := by
  by_cases hkey : key row = k
  · rw [if_pos hkey, hf row hkey, hkey]
  · rw [if_neg hkey]

/-- An update that keeps keys leaves the keys of the table alone. -/
theorem map_key_modifyRow {k : κ} (hf : KeepsKey key k f) (rows : List α) :
    (modifyRow key k f rows).map key = rows.map key := by
  induction rows with
  | nil => rfl
  | cons row rows ih =>
    cases hfound : lastRow? key k rows with
    | some found => rw [modifyRow_cons_of_some hfound, List.map_cons, ih, List.map_cons]
    | none => rw [modifyRow_cons_of_none hfound, List.map_cons, List.map_cons, key_ite hf]

/-- An update that the view does not show. -/
theorem map_modifyRow_of_view {β : Type*} {g : α → β} (hg : ∀ row, g (f row) = g row) (k : κ)
    (rows : List α) : (modifyRow key k f rows).map g = rows.map g := by
  induction rows with
  | nil => rfl
  | cons row rows ih =>
    cases hfound : lastRow? key k rows with
    | some found => rw [modifyRow_cons_of_some hfound, List.map_cons, ih, List.map_cons]
    | none =>
      rw [modifyRow_cons_of_none hfound, List.map_cons, List.map_cons]
      by_cases hkey : key row = k
      · rw [if_pos hkey, hg]
      · rw [if_neg hkey]

/-- Only the row of the key is changed. -/
theorem lastRow?_modifyRow {k : κ} (hf : KeepsKey key k f) (k' : κ) (rows : List α) :
    lastRow? key k' (modifyRow key k f rows) =
      if k' = k then (lastRow? key k' rows).map f else lastRow? key k' rows := by
  induction rows with
  | nil => simp [modifyRow]
  | cons row rows ih =>
    cases hfound : lastRow? key k rows with
    | some found =>
      rw [modifyRow_cons_of_some hfound, lastRow?_cons, ih, lastRow?_cons]
      by_cases hk : k' = k
      · rw [if_pos hk, if_pos hk, hk, hfound]
        rfl
      · rw [if_neg hk, if_neg hk]
    | none =>
      rw [modifyRow_cons_of_none hfound, lastRow?_cons, lastRow?_cons, key_ite hf]
      by_cases hk : k' = k
      · subst hk
        rw [hfound, if_pos rfl]
        by_cases hkey : key row = k' <;> simp [hkey]
      · rw [if_neg hk]
        by_cases hkey : key row = k
        · have hne : ¬ key row = k' := fun heq ↦ hk (heq.symm.trans hkey)
          rw [if_neg hne, if_neg hne]
        · rw [if_neg hkey]

/-- A row that stays may be changed before or after the others are taken out. -/
theorem modifyRow_filter {ids : List κ} {k : κ} (hf : KeepsKey key k f)
    (hk : k ∉ ids) (rows : List α) :
    modifyRow key k f (rows.filter fun row ↦ key row ∉ ids) =
      (modifyRow key k f rows).filter fun row ↦ key row ∉ ids := by
  induction rows with
  | nil => rfl
  | cons row rows ih =>
    have hsame : lastRow? key k (rows.filter fun row ↦ key row ∉ ids) = lastRow? key k rows := by
      rw [lastRow?_filter, if_neg hk]
    by_cases hrow : key row ∈ ids
    · have hne : key row ≠ k := fun heq ↦ hk (heq ▸ hrow)
      rw [List.filter_cons_of_neg (by simpa using hrow), ih]
      cases hfound : lastRow? key k rows with
      | some found =>
        rw [modifyRow_cons_of_some hfound, List.filter_cons_of_neg (by simpa using hrow)]
      | none =>
        rw [modifyRow_cons_of_none hfound, if_neg hne, modifyRow_of_none hfound,
          List.filter_cons_of_neg (by simpa using hrow)]
    · rw [List.filter_cons_of_pos (by simpa using hrow)]
      cases hfound : lastRow? key k rows with
      | some found =>
        rw [hfound] at hsame
        rw [modifyRow_cons_of_some hsame, modifyRow_cons_of_some hfound, ih,
          List.filter_cons_of_pos (by simpa using hrow)]
      | none =>
        rw [hfound] at hsame
        rw [modifyRow_cons_of_none hsame, modifyRow_cons_of_none hfound, List.filter_cons_of_pos]
        rw [key_ite hf]
        simpa using hrow

private theorem modifyRow_concat {k : κ} {row : α} (hne : key row ≠ k) (rows : List α) :
    modifyRow key k f (rows ++ [row]) = modifyRow key k f rows ++ [row] := by
  induction rows with
  | nil => simp [modifyRow, hne]
  | cons first rows ih =>
    have hsame : lastRow? key k (rows ++ [row]) = lastRow? key k rows := by
      rw [lastRow?_append, lastRow?_cons, if_neg hne]
      rfl
    rw [List.cons_append]
    cases hfound : lastRow? key k rows with
    | some found =>
      rw [modifyRow_cons_of_some (hsame.trans hfound), ih, modifyRow_cons_of_some hfound,
        List.cons_append]
    | none =>
      rw [modifyRow_cons_of_none (hsame.trans hfound), modifyRow_cons_of_none hfound,
        List.cons_append]

/-- Updates under different keys commute. -/
theorem modifyRow_comm {k k' : κ} (hf : KeepsKey key k f) (hg : KeepsKey key k' g)
    (hne : k ≠ k') (rows : List α) :
    modifyRow key k f (modifyRow key k' g rows) = modifyRow key k' g (modifyRow key k f rows) := by
  induction rows with
  | nil => rfl
  | cons row rows ih =>
    have hsame := lastRow?_modifyRow hg k rows
    have hsame' := lastRow?_modifyRow hf k' rows
    rw [if_neg hne] at hsame
    rw [if_neg hne.symm] at hsame'
    cases hfound : lastRow? key k rows with
    | some found =>
      rw [hfound] at hsame
      cases hfound' : lastRow? key k' rows with
      | some found' =>
        rw [hfound'] at hsame'
        rw [modifyRow_cons_of_some hfound', modifyRow_cons_of_some hfound,
          modifyRow_cons_of_some hsame, modifyRow_cons_of_some hsame', ih]
      | none =>
        rw [hfound'] at hsame'
        rw [modifyRow_cons_of_none hfound', modifyRow_cons_of_some hfound,
          modifyRow_cons_of_some hfound, modifyRow_cons_of_none hsame']
    | none =>
      rw [hfound] at hsame
      cases hfound' : lastRow? key k' rows with
      | some found' =>
        rw [modifyRow_cons_of_some hfound', modifyRow_cons_of_none hfound,
          modifyRow_cons_of_none hsame, modifyRow_cons_of_some hfound']
      | none =>
        rw [modifyRow_cons_of_none hfound', modifyRow_cons_of_none hfound,
          modifyRow_cons_of_none hfound, modifyRow_cons_of_none hfound', key_ite hg, key_ite hf]
        by_cases hk : key row = k
        · have hk' : ¬ key row = k' := fun heq ↦ hne (hk.symm.trans heq)
          rw [if_pos hk, if_neg hk', if_neg hk', if_pos hk]
        · rw [if_neg hk, if_neg hk]

/-- Two updates of one row. -/
theorem modifyRow_modifyRow {k : κ} (hf : KeepsKey key k f) (rows : List α) :
    modifyRow key k g (modifyRow key k f rows) = modifyRow key k (g ∘ f) rows := by
  induction rows with
  | nil => rfl
  | cons row rows ih =>
    have hsame := lastRow?_modifyRow hf k rows
    rw [if_pos rfl] at hsame
    cases hfound : lastRow? key k rows with
    | some found =>
      rw [hfound] at hsame
      rw [modifyRow_cons_of_some hfound, modifyRow_cons_of_some hsame, ih,
        modifyRow_cons_of_some hfound]
    | none =>
      rw [modifyRow_cons_of_none hfound, modifyRow_cons_of_none hfound,
        modifyRow_cons_of_none hfound, key_ite hf]
      by_cases hkey : key row = k
      · simp only [if_pos hkey, Function.comp_apply]
      · simp only [if_neg hkey]

/-- A row of the changed list is a changed row or was there. -/
theorem mem_modifyRow {k : κ} {row : α} {rows : List α} (h : row ∈ modifyRow key k f rows) :
    row ∈ rows ∨ ∃ old ∈ rows, row = f old := by
  induction rows with
  | nil => exact Or.inl h
  | cons first rows ih =>
    cases hfound : lastRow? key k rows with
    | some found =>
      rw [modifyRow_cons_of_some hfound, List.mem_cons] at h
      rcases h with hfirst | hrest
      · exact Or.inl (hfirst ▸ List.mem_cons_self)
      · rcases ih hrest with hold | ⟨old, hold, hrow⟩
        · exact Or.inl (List.mem_cons_of_mem first hold)
        · exact Or.inr ⟨old, List.mem_cons_of_mem first hold, hrow⟩
    | none =>
      rw [modifyRow_cons_of_none hfound, List.mem_cons] at h
      rcases h with hfirst | hrest
      · by_cases hkey : key first = k
        · rw [if_pos hkey] at hfirst
          exact Or.inr ⟨first, List.mem_cons_self, hfirst⟩
        · rw [if_neg hkey] at hfirst
          exact Or.inl (hfirst ▸ List.mem_cons_self)
      · exact Or.inl (List.mem_cons_of_mem first hrest)

end Modify

section Upsert

variable {f : α → α}

/-- A row with a new key is put at the end. -/
theorem upsertRow_of_none {row : α} {rows : List α} (h : lastRow? key (key row) rows = none) :
    upsertRow key row rows = rows ++ [row] := by
  rw [upsertRow, h]
  rfl

private theorem upsertRow_of_some {row found : α} {rows : List α}
    (h : lastRow? key (key row) rows = some found) :
    upsertRow key row rows = modifyRow key (key row) (fun _ ↦ row) rows := by
  rw [upsertRow, h]
  rfl

/-- The row that was put in is the row of its key. -/
theorem lastRow?_upsertRow (row : α) (k : κ) (rows : List α) :
    lastRow? key k (upsertRow key row rows) =
      if k = key row then some row else lastRow? key k rows := by
  cases hfound : lastRow? key (key row) rows with
  | none =>
    rw [upsertRow_of_none hfound, lastRow?_append, lastRow?_cons, lastRow?_nil, Option.none_or]
    by_cases hk : k = key row
    · rw [if_pos hk, if_pos hk.symm, Option.some_or]
    · rw [if_neg hk, if_neg (Ne.symm hk), Option.none_or]
  | some found =>
    rw [upsertRow_of_some hfound, lastRow?_modifyRow (f := fun _ ↦ row) fun _ _ ↦ rfl]
    by_cases hk : k = key row
    · rw [if_pos hk, if_pos hk, hk, hfound]
      rfl
    · rw [if_neg hk, if_neg hk]

/-- Rows of different keys are changed and put in independently. -/
theorem modifyRow_upsertRow {k : κ} (hf : KeepsKey key k f) {row : α} (hne : key row ≠ k)
    (rows : List α) :
    modifyRow key k f (upsertRow key row rows) = upsertRow key row (modifyRow key k f rows) := by
  have hsame := lastRow?_modifyRow hf (key row) rows
  rw [if_neg hne] at hsame
  cases hfound : lastRow? key (key row) rows with
  | none =>
    rw [upsertRow_of_none hfound, upsertRow_of_none (hsame.trans hfound), modifyRow_concat hne]
  | some found =>
    rw [upsertRow_of_some hfound, upsertRow_of_some (hsame.trans hfound),
      modifyRow_comm hf (fun _ _ ↦ rfl) hne.symm]

/-- A row of the new list is the new row or was there. -/
theorem mem_upsertRow {row new : α} {rows : List α} (h : row ∈ upsertRow key new rows) :
    row = new ∨ row ∈ rows := by
  cases hfound : lastRow? key (key new) rows with
  | none =>
    rw [upsertRow_of_none hfound, List.mem_append, List.mem_singleton] at h
    exact h.symm
  | some found =>
    rw [upsertRow_of_some hfound] at h
    rcases mem_modifyRow h with hold | ⟨_, _, hnew⟩
    · exact Or.inr hold
    · exact Or.inl hnew

end Upsert

section Sum

variable {f : α → α} (key) (weight : α → Nat)

/-- Rewriting a row changes the sum of the weights by that row. -/
theorem sum_map_modifyRow (k : κ) (rows : List α) :
    ((modifyRow key k f rows).map weight).sum + ((lastRow? key k rows).map weight).getD 0 =
      (rows.map weight).sum + ((lastRow? key k rows).map fun row ↦ weight (f row)).getD 0 := by
  induction rows with
  | nil => rfl
  | cons row rows ih =>
    rw [lastRow?_cons]
    cases hfound : lastRow? key k rows with
    | some found =>
      rw [hfound] at ih
      rw [modifyRow_cons_of_some hfound, List.map_cons, List.map_cons, List.sum_cons, List.sum_cons]
      simp only [Option.some_or, Option.map_some, Option.getD_some] at ih ⊢
      omega
    | none =>
      rw [modifyRow_cons_of_none hfound, List.map_cons, List.map_cons, List.sum_cons, List.sum_cons]
      by_cases hkey : key row = k
      · simp only [if_pos hkey, Option.none_or, Option.map_some, Option.getD_some]
        omega
      · simp only [if_neg hkey, Option.none_or, Option.map_none, Option.getD_none]

/-- A replaced or added row changes the sum of the weights by that row. -/
theorem sum_map_upsertRow (row : α) (rows : List α) :
    ((upsertRow key row rows).map weight).sum +
        ((lastRow? key (key row) rows).map weight).getD 0 =
      (rows.map weight).sum + weight row := by
  cases hfound : lastRow? key (key row) rows with
  | none =>
    rw [upsertRow_of_none hfound, List.map_append, List.sum_append]
    simp
  | some found =>
    have hsum := sum_map_modifyRow (f := fun _ ↦ row) key weight (key row) rows
    rw [hfound] at hsum
    rw [upsertRow_of_some hfound]
    exact hsum

end Sum

section Count

variable {f : α → α} (key) (q : α → Bool)

private theorem countP_eq_sum (rows : List α) :
    rows.countP q = (rows.map fun row ↦ (q row).toNat).sum := by
  induction rows with
  | nil => rfl
  | cons row rows ih =>
    rw [List.countP_cons, List.map_cons, List.sum_cons, ih, Nat.add_comm]
    cases q row <;> rfl

/-- Rewriting a row changes a count by that row. -/
theorem countP_modifyRow (k : κ) (rows : List α) :
    (modifyRow key k f rows).countP q +
        ((lastRow? key k rows).map fun row ↦ (q row).toNat).getD 0 =
      rows.countP q + ((lastRow? key k rows).map fun row ↦ (q (f row)).toNat).getD 0 := by
  rw [countP_eq_sum, countP_eq_sum]
  exact sum_map_modifyRow key (fun row ↦ (q row).toNat) k rows

/-- A replaced or added row changes a count by that row. -/
theorem countP_upsertRow (row : α) (rows : List α) :
    (upsertRow key row rows).countP q +
        ((lastRow? key (key row) rows).map fun row ↦ (q row).toNat).getD 0 =
      rows.countP q + (q row).toNat := by
  rw [countP_eq_sum, countP_eq_sum]
  exact sum_map_upsertRow key (fun row ↦ (q row).toNat) row rows

/-- Removing the only row of a key changes a count by that row. -/
theorem countP_filter_ne {rows : List α} (hnodup : (rows.map key).Nodup) (k : κ) :
    (rows.filter fun row ↦ key row ∉ [k]).countP q +
        ((lastRow? key k rows).map fun row ↦ (q row).toNat).getD 0 = rows.countP q := by
  induction rows with
  | nil => rfl
  | cons row rows ih =>
    rw [List.map_cons, List.nodup_cons] at hnodup
    have hrest := ih hnodup.2
    rw [lastRow?_cons, List.countP_cons]
    by_cases hkey : key row = k
    · have hnone : lastRow? key k rows = none := by
        rw [lastRow?_eq_none_iff]
        intro other hother heq
        exact hnodup.1 (List.mem_map.mpr ⟨other, hother, heq.trans hkey.symm⟩)
      rw [hnone] at hrest
      rw [List.filter_cons_of_neg (by simpa using hkey), hnone, if_pos hkey]
      simp only [Option.map_none, Option.getD_none, Nat.add_zero] at hrest
      simp only [hrest, Option.none_or, Option.map_some, Option.getD_some]
      cases q row <;> rfl
    · rw [List.filter_cons_of_pos (by simpa using hkey), List.countP_cons, if_neg hkey,
        Option.or_none]
      omega

end Count

section Distinct

variable {f : α → α}

/-- The keys stay distinct when a row is replaced or added. -/
theorem nodup_upsertRow {rows : List α} (hnodup : (rows.map key).Nodup) (row : α) :
    ((upsertRow key row rows).map key).Nodup := by
  cases hfound : lastRow? key (key row) rows with
  | some found =>
    rw [upsertRow_of_some hfound, map_key_modifyRow fun _ _ ↦ rfl]
    exact hnodup
  | none =>
    rw [upsertRow_of_none hfound, List.map_append, List.nodup_append]
    refine ⟨hnodup, List.nodup_singleton _, ?_⟩
    rintro k hk k' hk' rfl
    obtain ⟨other, hother, hkey⟩ := List.mem_map.mp hk
    rw [List.map_singleton, List.mem_singleton] at hk'
    exact lastRow?_eq_none_iff.mp hfound other hother (hkey.trans hk')

/-- A replaced or added row makes no table shorter. -/
theorem length_le_upsertRow (row : α) (rows : List α) :
    rows.length ≤ (upsertRow key row rows).length := by
  cases hfound : lastRow? key (key row) rows with
  | some found =>
    have hkeys := congrArg List.length
      (map_key_modifyRow (k := key row) (f := fun _ ↦ row) (fun _ _ ↦ rfl) rows)
    rw [List.length_map, List.length_map] at hkeys
    rw [upsertRow_of_some hfound]
    exact Nat.le_of_eq hkeys.symm
  | none =>
    rw [upsertRow_of_none hfound, List.length_append]
    exact Nat.le_add_right _ _

end Distinct

end Base
