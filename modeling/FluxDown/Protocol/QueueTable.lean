import FluxDown.Base.KeyedRows
import FluxDown.Engine.QueueOrder

/-!
# Queue position tables

Library `Protocol`. Clients keep the queue as a table of positions in increasing order of a
sort key. A difference removes some tasks and inserts or moves others; two differences in a
row compose into one, and a table that has a difference in it already is not changed by
taking it again on the way to the next one. Both hold of tables whose keys strictly increase;
a table out of order is put in order by some differences and not by others.
-/

namespace Protocol

open Base Engine.QueueOrder

/-- A task and its sort key (`src/native/protocol/src/daemon.rs:2154–2161`). -/
abbrev QueueOrderEntryDto := QueueOrderEntry String

/-- A row of the table (`daemon.rs:2137–2152`). -/
abbrev QueuePositionDto := QueuePosition String

/-- The entry a row shows. -/
def entryOf (row : QueuePositionDto) : QueueOrderEntryDto := ⟨row.taskId, row.order⟩

/-- A row whose rank is not known yet. -/
def unrankedRow (entry : QueueOrderEntryDto) : QueuePositionDto := ⟨entry.taskId, 0, entry.order⟩

/-- The sort keys of the table strictly increase. -/
def InOrder (positions : List QueuePositionDto) : Prop := Increasing QueuePosition.order positions

instance (positions : List QueuePositionDto) : Decidable (InOrder positions) :=
  inferInstanceAs (Decidable (Increasing _ _))

/-- The last entry of each task, the last one of the list first
(`src/native/protocol/src/event.rs:719–725`). -/
def latestEntries (added : List QueueOrderEntryDto) : List QueueOrderEntryDto :=
  added.foldr (fun entry incoming ↦
    if entry.taskId ∈ incoming.map QueueOrderEntry.taskId then incoming
    else incoming ++ [entry]) []

/-- Remove and insert, before ranks are rewritten (`event.rs:713–744`). -/
def spliceQueue (positions : List QueuePositionDto) (removed : List String)
    (added : List QueueOrderEntryDto) : List QueuePositionDto :=
  if removed.isEmpty && added.isEmpty then positions
  else
    let dropped := removed ++ added.map QueueOrderEntry.taskId
    let existing := positions.filter fun row ↦ row.taskId ∉ dropped
    let incoming := sortByRank QueueOrderEntry.order (latestEntries added)
    existing.merge (incoming.map unrankedRow) fun row next ↦ !decide (next.order < row.order)

/-- Rewrite the ranks from one (`event.rs:745–747`). -/
def renumber (positions : List QueuePositionDto) : List QueuePositionDto :=
  positions.mapIdx fun index row ↦ { row with position := rankOf index }

/-- Take a difference into the table (`event.rs:705–748`). -/
def applyQueueOrder (positions : List QueuePositionDto) (removed : List String)
    (added : List QueueOrderEntryDto) : List QueuePositionDto :=
  renumber (spliceQueue positions removed added)

/-- One difference for two in a row (`src/native/protocol/src/coalesce.rs:400–427`). -/
def composeQueueOrder (oldRemoved : List String) (oldAdded : List QueueOrderEntryDto)
    (removed : List String) (added : List QueueOrderEntryDto) :
    List String × List QueueOrderEntryDto :=
  let overridden := removed ++ added.map QueueOrderEntry.taskId
  ((oldRemoved ++ removed).eraseDups,
    oldAdded.filter (fun entry ↦ entry.taskId ∉ overridden) ++ added)

/-! ## Ranks follow from the entries -/

private theorem renumber_eq (positions : List QueuePositionDto) :
    renumber positions =
      (positions.map entryOf).mapIdx fun index entry ↦ ⟨entry.taskId, rankOf index, entry.order⟩ := by
  rw [renumber, List.mapIdx_eq_zipIdx_map, List.mapIdx_eq_zipIdx_map, List.zipIdx_map]
  simp [entryOf, Function.comp_def]

/-- Tables with the same entries have the same ranks. -/
theorem renumber_congr {positions positions' : List QueuePositionDto}
    (h : positions.map entryOf = positions'.map entryOf) :
    renumber positions = renumber positions' := by
  rw [renumber_eq, renumber_eq, h]

/-- Renumbering keeps the entries. -/
@[simp] theorem map_entryOf_renumber (positions : List QueuePositionDto) :
    (renumber positions).map entryOf = positions.map entryOf := by
  apply List.ext_getElem?
  intro index
  rw [renumber, List.getElem?_map, List.getElem?_mapIdx, Option.map_map, List.getElem?_map]
  rfl

/-- The sort keys increase when the table is in order. -/
theorem increasing_entries {positions : List QueuePositionDto} :
    Increasing QueueOrderEntry.order (positions.map entryOf) ↔ InOrder positions :=
  List.pairwise_map

/-- Ranks play no part in the order of the table. -/
@[simp] theorem inOrder_renumber {positions : List QueuePositionDto} :
    InOrder (renumber positions) ↔ InOrder positions := by
  rw [← increasing_entries, map_entryOf_renumber, increasing_entries]

/-! ## Members after a difference -/

private theorem latestEntries_cons (first : QueueOrderEntryDto) (added : List QueueOrderEntryDto) :
    latestEntries (first :: added) =
      if first.taskId ∈ (latestEntries added).map QueueOrderEntry.taskId then latestEntries added
      else latestEntries added ++ [first] := rfl

private theorem mem_latestEntries {added : List QueueOrderEntryDto} {entry : QueueOrderEntryDto} :
    entry ∈ latestEntries added ↔
      lastRow? QueueOrderEntry.taskId entry.taskId added = some entry := by
  induction added generalizing entry with
  | nil => simp [latestEntries]
  | cons first added ih =>
    have hids : first.taskId ∈ (latestEntries added).map QueueOrderEntry.taskId ↔
        (lastRow? QueueOrderEntry.taskId first.taskId added).isSome := by
      rw [List.mem_map, Option.isSome_iff_exists]
      constructor
      · rintro ⟨e, he, hid⟩
        exact ⟨e, hid ▸ ih.mp he⟩
      · rintro ⟨e, he⟩
        have hid := (lastRow?_eq_some he).2
        exact ⟨e, ih.mpr (hid.symm ▸ he), hid⟩
    rw [latestEntries_cons, lastRow?_cons]
    cases hfound : lastRow? QueueOrderEntry.taskId entry.taskId added with
    | some found =>
      have hmem : entry ∈ latestEntries added ↔ found = entry := by
        rw [ih, hfound, Option.some.injEq]
      rw [Option.some_or, Option.some.injEq, ← hmem]
      by_cases hsame : first.taskId = entry.taskId
      · rw [if_pos (hids.mpr (by rw [hsame, hfound]; rfl))]
      · have hne : entry ≠ first := fun heq ↦ hsame (heq ▸ rfl)
        split <;> simp [hne]
    | none =>
      have hnot : entry ∉ latestEntries added := by
        rw [ih, hfound]
        exact Option.some_ne_none _ ∘ Eq.symm
      rw [Option.none_or]
      by_cases hsame : first.taskId = entry.taskId
      · rw [if_neg (fun h ↦ by rw [hids, hsame, hfound] at h; cases h), if_pos hsame]
        simp [hnot, eq_comm]
      · have hne : entry ≠ first := fun heq ↦ hsame (heq ▸ rfl)
        rw [if_neg hsame]
        split <;> simp [hnot, hne]

private theorem nodup_latestEntries (added : List QueueOrderEntryDto) :
    (latestEntries added).Nodup := by
  induction added with
  | nil => exact List.nodup_nil
  | cons first added ih =>
    rw [latestEntries_cons]
    split
    · exact ih
    · next h =>
      apply List.nodup_append.mpr
      refine ⟨ih, List.nodup_singleton _, ?_⟩
      intro entry hentry other hother heq
      rw [List.mem_singleton] at hother
      exact h (List.mem_map.mpr ⟨entry, hentry, by rw [heq, hother]⟩)

private theorem perm_spliceQueue {removed : List String} {added : List QueueOrderEntryDto}
    (h : ¬ (removed.isEmpty && added.isEmpty)) (positions : List QueuePositionDto) :
    ((spliceQueue positions removed added).map entryOf).Perm
      ((positions.map entryOf).filter
          (fun entry ↦ entry.taskId ∉ removed ++ added.map QueueOrderEntry.taskId) ++
        latestEntries added) := by
  rw [spliceQueue, if_neg h]
  apply (List.Perm.map entryOf (List.merge_perm_append _)).trans
  rw [List.map_append, List.map_map, List.filter_map]
  have hrow : entryOf ∘ unrankedRow = id := rfl
  rw [hrow, List.map_id]
  exact (List.perm_append_left_iff _).mpr (perm_sortByRank _)

/-- The entries after a difference. -/
theorem mem_spliceQueue {positions : List QueuePositionDto} {removed : List String}
    {added : List QueueOrderEntryDto} {entry : QueueOrderEntryDto} :
    entry ∈ (spliceQueue positions removed added).map entryOf ↔
      (entry ∈ positions.map entryOf ∧ entry.taskId ∉ removed ∧
        lastRow? QueueOrderEntry.taskId entry.taskId added = none) ∨
      lastRow? QueueOrderEntry.taskId entry.taskId added = some entry := by
  by_cases h : removed.isEmpty && added.isEmpty
  · have hempty : removed = [] ∧ added = [] := by simpa using h
    rw [spliceQueue, if_pos h, hempty.1, hempty.2]
    simp
  · rw [(perm_spliceQueue h positions).mem_iff, List.mem_append, mem_latestEntries,
      List.mem_filter, lastRow?_eq_none_iff]
    simp

/-- Sort keys that do not fall stay so. -/
theorem sorted_spliceQueue {positions : List QueuePositionDto}
    (h : positions.Pairwise fun a b ↦ a.order ≤ b.order) (removed : List String)
    (added : List QueueOrderEntryDto) :
    ((spliceQueue positions removed added).map entryOf).Pairwise fun a b ↦ a.order ≤ b.order := by
  rw [List.pairwise_map]
  rw [spliceQueue]
  split
  · exact h
  · have hle : ∀ row next : QueuePositionDto,
        (!decide (next.order < row.order)) = true ↔ row.order ≤ next.order := by simp
    have hmerge : ∀ (l l' : List QueuePositionDto),
        l.Pairwise (fun a b ↦ a.order ≤ b.order) → l'.Pairwise (fun a b ↦ a.order ≤ b.order) →
        (l.merge l' fun row next ↦ !decide (next.order < row.order)).Pairwise
          fun a b ↦ a.order ≤ b.order := by
      intro l l' hl hl'
      refine List.Pairwise.imp (fun h ↦ (hle _ _).mp h) (List.pairwise_merge ?_ ?_ l l' ?_ ?_)
      · intro a b c
        rw [hle, hle, hle]
        exact le_trans
      · intro a b
        rw [Bool.or_eq_true, hle, hle]
        exact le_total a.order b.order
      · exact hl.imp fun h ↦ (hle _ _).mpr h
      · exact hl'.imp fun h ↦ (hle _ _).mpr h
    apply hmerge
    · exact h.filter _
    · exact List.pairwise_map.mpr (pairwise_sortByRank _)

/-- Entries stay distinct. -/
theorem nodup_spliceQueue {positions : List QueuePositionDto}
    (hnodup : (positions.map entryOf).Nodup) (removed : List String)
    (added : List QueueOrderEntryDto) :
    ((spliceQueue positions removed added).map entryOf).Nodup := by
  by_cases hempty : removed.isEmpty && added.isEmpty
  · rw [spliceQueue, if_pos hempty]
    exact hnodup
  · rw [(perm_spliceQueue hempty positions).nodup_iff, List.nodup_append]
    refine ⟨hnodup.filter _, nodup_latestEntries added, ?_⟩
    intro entry hkept other hother heq
    have hadded := (lastRow?_eq_some (mem_latestEntries.mp hother)).1
    have hnot := (List.mem_filter.mp hkept).2
    simp only [List.mem_append, List.mem_map, not_or, decide_eq_true_eq] at hnot
    exact hnot.2 ⟨other, hadded, by rw [heq]⟩

/-! ## Two differences in a row -/

/-- A difference taken into a table in order is determined by the members it leads to. -/
theorem applyQueueOrder_eq {positions positions' : List QueuePositionDto}
    {removed removed' : List String} {added added' : List QueueOrderEntryDto}
    (h : InOrder positions) (htarget : InOrder (applyQueueOrder positions' removed' added'))
    (hmem : ∀ entry, entry ∈ (spliceQueue positions removed added).map entryOf ↔
      entry ∈ (spliceQueue positions' removed' added').map entryOf) :
    applyQueueOrder positions removed added = applyQueueOrder positions' removed' added' := by
  rw [applyQueueOrder, inOrder_renumber, ← increasing_entries] at htarget
  apply renumber_congr
  have hnodup : (positions.map entryOf).Nodup := (increasing_entries.mpr h).nodup
  apply htarget.eq_of_sorted (sorted_spliceQueue (h.imp le_of_lt) removed added)
  rw [List.perm_ext_iff_of_nodup (nodup_spliceQueue hnodup removed added) htarget.nodup]
  exact hmem

private theorem lastRow?_compose {oldRemoved : List String} {oldAdded : List QueueOrderEntryDto}
    {removed : List String} {added : List QueueOrderEntryDto} (id : String) :
    lastRow? QueueOrderEntry.taskId id (composeQueueOrder oldRemoved oldAdded removed added).2 =
      (lastRow? QueueOrderEntry.taskId id added).or
        (if id ∈ removed then none else lastRow? QueueOrderEntry.taskId id oldAdded) := by
  rw [composeQueueOrder, lastRow?_append, lastRow?_filter]
  cases hadded : lastRow? QueueOrderEntry.taskId id added with
  | some entry => rfl
  | none =>
    have hnot : id ∉ added.map QueueOrderEntry.taskId := by
      intro hmem
      obtain ⟨entry, hentry, hid⟩ := List.mem_map.mp hmem
      exact lastRow?_eq_none_iff.mp hadded entry hentry hid
    simp [hnot]

private theorem mem_compose {oldRemoved : List String} {oldAdded : List QueueOrderEntryDto}
    {removed : List String} {added : List QueueOrderEntryDto} (id : String) :
    id ∈ (composeQueueOrder oldRemoved oldAdded removed added).1 ↔ id ∈ oldRemoved ∨ id ∈ removed := by
  rw [composeQueueOrder, List.mem_eraseDups, List.mem_append]

/-- Two differences in a row are the composed one. -/
theorem applyQueueOrder_compose {positions : List QueuePositionDto} {oldRemoved removed : List String}
    {oldAdded added : List QueueOrderEntryDto} (h : InOrder positions)
    (hafter : InOrder (applyQueueOrder (applyQueueOrder positions oldRemoved oldAdded)
      removed added)) :
    applyQueueOrder positions (composeQueueOrder oldRemoved oldAdded removed added).1
        (composeQueueOrder oldRemoved oldAdded removed added).2 =
      applyQueueOrder (applyQueueOrder positions oldRemoved oldAdded) removed added := by
  apply applyQueueOrder_eq h hafter
  intro entry
  rw [mem_spliceQueue, mem_spliceQueue, lastRow?_compose, mem_compose, applyQueueOrder,
    map_entryOf_renumber, mem_spliceQueue]
  cases lastRow? QueueOrderEntry.taskId entry.taskId added with
  | some found => simp
  | none =>
    by_cases hremoved : entry.taskId ∈ removed <;> simp [hremoved]

/-- A table that has the first of two differences in it is led by the composed one where the
second leads it. -/
theorem applyQueueOrder_replay {positions : List QueuePositionDto} {oldRemoved removed : List String}
    {oldAdded added : List QueueOrderEntryDto}
    (h : InOrder (applyQueueOrder positions oldRemoved oldAdded))
    (hafter : InOrder (applyQueueOrder (applyQueueOrder positions oldRemoved oldAdded)
      removed added)) :
    applyQueueOrder (applyQueueOrder positions oldRemoved oldAdded)
        (composeQueueOrder oldRemoved oldAdded removed added).1
        (composeQueueOrder oldRemoved oldAdded removed added).2 =
      applyQueueOrder (applyQueueOrder positions oldRemoved oldAdded) removed added := by
  apply applyQueueOrder_eq h hafter
  intro entry
  rw [mem_spliceQueue, mem_spliceQueue, lastRow?_compose, mem_compose, applyQueueOrder,
    map_entryOf_renumber, mem_spliceQueue]
  cases lastRow? QueueOrderEntry.taskId entry.taskId added with
  | some found => simp
  | none =>
    by_cases hremoved : entry.taskId ∈ removed
    · simp [hremoved]
    · simp only [hremoved, or_false, not_false_eq_true, if_false, Option.none_or,
        reduceCtorEq, and_true]
      constructor
      · rintro (⟨hin | hnew, -⟩ | hnew)
        · exact .inl hin
        · exact .inr hnew
        · exact .inr hnew
      · rintro (hin | hnew)
        · exact .inl ⟨.inl hin, hin.2⟩
        · exact .inr hnew

end Protocol
