import FluxDown.Base.Indexed
import FluxDown.Base.Tombstones

/-!
# Positions of the tasks

Library `Web`. The projection of the daemon keeps its tasks in arrays that are never changed once they
are handed out. Each array has an index, a record of its own with a map that it shares with all arrays
of the same origin: the map gives a task its slot for good, and the record says which slots were
removed and which come next. What a foreign branch writes into the map is caught when the row is read
back.
-/

namespace Web

open Base

/-- A task, as an object with its identity. -/
structure TaskDto where
  object : Nat
  taskId : String
deriving DecidableEq

/-- The index of an array; the map is known by its place in memory
(`src/web/src/lib/rpc/apply.ts:118–124`). -/
structure TaskIndex where
  slots : Nat
  removed : List Nat
  next : Nat

/-- A step between two versions: the tasks that were touched, or none if all were replaced
(`apply.ts:214–218`). -/
structure TaskDelta where
  parent : Nat
  ids : Option (List String)

/-- An array with its entries in `TASK_INDEX` and `TASK_VERSION` (`apply.ts:126, 220`). -/
structure TaskArray where
  rows : List TaskDto
  index : Option TaskIndex := none
  version : Option Nat := none

/-- The memory: arrays and maps by their places, and the log of versions (`apply.ts:220–224`). -/
structure Heap where
  arrays : List TaskArray := []
  slotMaps : List (String → Option Nat) := []
  taskLog : List (Nat × TaskDelta) := []
  taskVersionCounter : Nat := 0

/-- The most removed slots of an index (`apply.ts:131`). -/
def compactRemoved : Nat := 4096

/-- The most rows that are removed one by one (`apply.ts:134`). -/
def spliceLimit : Nat := 16

namespace Heap

/-- The rows of an array. -/
def rows (heap : Heap) (tasks : Nat) : List TaskDto :=
  match heap.arrays[tasks]? with
  | some array => array.rows
  | none => []

/-- Change an array, or its entries in the two tables. -/
def onArray (heap : Heap) (tasks : Nat) (f : TaskArray → TaskArray) : Heap :=
  { heap with arrays := heap.arrays.modify tasks f }

def setIndex (heap : Heap) (tasks : Nat) (index : TaskIndex) : Heap :=
  heap.onArray tasks fun array ↦ { array with index := some index }

/-- A new array. -/
def alloc (heap : Heap) (rows : List TaskDto) (index : Option TaskIndex) : Nat × Heap :=
  (heap.arrays.length, { heap with arrays := heap.arrays ++ [{ rows, index }] })

/-- Read a map. -/
def slotOf (heap : Heap) (slots : Nat) (taskId : String) : Option Nat :=
  match heap.slotMaps[slots]? with
  | some slotMap => slotMap taskId
  | none => none

/-- Write into a map. -/
def setSlot (heap : Heap) (slots : Nat) (taskId : String) (slot : Nat) : Heap :=
  { heap with slotMaps := heap.slotMaps.modify slots fun slotMap ↦
      Function.update slotMap taskId (some slot) }

end Heap

/-- The slots of a new index are the positions (`apply.ts:135–138`). -/
def buildSlots (tasks : List TaskDto) : String → Option Nat :=
  tasks.zipIdx.foldl (fun slotMap (task, position) ↦
    Function.update slotMap task.taskId (some position)) fun _ ↦ none

namespace Heap

/-- A new index (`apply.ts:134–140`). -/
def buildTaskIndex (heap : Heap) (tasks : Nat) : TaskIndex × Heap :=
  ({ slots := heap.slotMaps.length, removed := [], next := (heap.rows tasks).length },
    { heap with slotMaps := heap.slotMaps ++ [buildSlots (heap.rows tasks)] })

/-- The index of an array, which is built if it has none (`apply.ts:142–149`). -/
def taskIndexOf (heap : Heap) (tasks : Nat) : TaskIndex × Heap :=
  match heap.arrays[tasks]?.bind TaskArray.index with
  | some index => (index, heap)
  | none =>
    let (index, heap) := heap.buildTaskIndex tasks
    (index, heap.setIndex tasks index)

end Heap

/-- How many numbers are below a value (`apply.ts:151–161`). -/
def countBelow (sorted : List Nat) (value : Nat) : Nat := bisect sorted value 0 sorted.length

namespace Heap

/-- The position of a task, none for `-1` (`apply.ts:163–179`). A difference below zero reads
no row. -/
def findTaskIndex (heap : Heap) (tasks : Nat) (taskId : String) : Option Nat × Heap :=
  let (index, heap) := heap.taskIndexOf tasks
  match heap.slotOf index.slots taskId with
  | none => (none, heap)
  | some slot =>
    if index.next ≤ slot then (none, heap)
    else
      let below := countBelow index.removed slot
      if index.removed[below]? = some slot then (none, heap)
      else if below ≤ slot ∧ (heap.rows tasks)[slot - below]?.map TaskDto.taskId = some taskId then
        (some (slot - below), heap)
      else
        let (rebuilt, heap) := heap.buildTaskIndex tasks
        let heap := heap.setIndex tasks rebuilt
        (heap.slotOf rebuilt.slots taskId, heap)

/-- Give a new task its slot; the index that the array has with it (`apply.ts:181–188`). -/
def indexAppend (heap : Heap) (tasks : Nat) (taskId : String) : TaskIndex × Heap :=
  let (index, heap) := heap.taskIndexOf tasks
  let (index, heap) :=
    if (heap.slotOf index.slots taskId).isSome then heap.buildTaskIndex tasks else (index, heap)
  ({ index with next := index.next + 1 }, heap.setSlot index.slots taskId index.next)

end Heap

/-- Merge two sorted lists (`apply.ts:190–202`). -/
def mergeSorted (left right : List Nat) : List Nat :=
  if left.isEmpty then right else left.merge right fun a b ↦ a < b

private theorem countBelow_eq {sorted : List Nat} (h : sorted.Pairwise (· < ·)) (value : Nat) :
    countBelow sorted value = sorted.countP fun number ↦ number < value :=
  bisect_eq_countP h (Nat.zero_le _) List.countP_le_length (Nat.le_refl _)

/-! ## Indexes that are right -/

/-- The identities of the rows. -/
def taskIds (rows : List TaskDto) : List String := rows.map TaskDto.taskId

/-- The slots of the rows are those in use, in order. -/
structure Indexes (slotMap : String → Option Nat) (ids : List String) (index : TaskIndex) :
    Prop where
  sorted : index.removed.Pairwise (· < ·)
  below : ∀ slot ∈ index.removed, slot < index.next
  slots : ids.map slotMap = (alive index.next index.removed).map some

/-- No task is in an array twice, and its index is right if it has one. -/
structure TaskArray.Valid (slotMaps : List (String → Option Nat)) (array : TaskArray) : Prop where
  nodup : (taskIds array.rows).Nodup
  index : ∀ index, array.index = some index →
    ∃ slotMap, slotMaps[index.slots]? = some slotMap ∧ Indexes slotMap (taskIds array.rows) index

/-- All arrays are right. -/
def Heap.Valid (heap : Heap) : Prop := ∀ array ∈ heap.arrays, array.Valid heap.slotMaps

/-- Maps are added, and entries are added to them. -/
def Extends (slotMaps slotMaps' : List (String → Option Nat)) : Prop :=
  ∀ (ref : Nat) (slotMap : String → Option Nat), slotMaps[ref]? = some slotMap →
    ∃ slotMap', slotMaps'[ref]? = some slotMap' ∧
      ∀ taskId slot, slotMap taskId = some slot → slotMap' taskId = some slot

/-- Slot maps extend themselves. -/
theorem Extends.refl (slotMaps : List (String → Option Nat)) : Extends slotMaps slotMaps :=
  fun _ slotMap hslotMap ↦ ⟨slotMap, hslotMap, fun _ _ h ↦ h⟩

/-- Maps that extend an extension extend the maps. -/
theorem Extends.trans {a b c : List (String → Option Nat)} (h : Extends a b) (h' : Extends b c) :
    Extends a c := by
  intro ref slotMap hslotMap
  obtain ⟨slotMap', hslotMap', hentries⟩ := h ref slotMap hslotMap
  obtain ⟨slotMap'', hslotMap'', hentries'⟩ := h' ref slotMap' hslotMap'
  exact ⟨slotMap'', hslotMap'', fun taskId slot hslot ↦ hentries' _ _ (hentries _ _ hslot)⟩

/-- More slot maps extend the maps. -/
theorem Extends.append (slotMaps more : List (String → Option Nat)) :
    Extends slotMaps (slotMaps ++ more) := by
  intro ref slotMap hslotMap
  refine ⟨slotMap, ?_, fun _ _ h ↦ h⟩
  rw [List.getElem?_append_left (List.getElem?_eq_some_iff.mp hslotMap).1, hslotMap]

section Indexes

variable {slotMap slotMap' : String → Option Nat} {ids : List String} {index : TaskIndex}

/-- The slot of each row. -/
theorem Indexes.slot_of_position (h : Indexes slotMap ids index) {position : Nat} {taskId : String}
    (hposition : ids[position]? = some taskId) :
    ∃ slot, slotMap taskId = some slot ∧ (alive index.next index.removed)[position]? = some slot := by
  have hslots := congrArg (·[position]?) h.slots
  simp only [List.getElem?_map, hposition, Option.map_some] at hslots
  obtain ⟨slot, hslot, hsame⟩ := Option.map_eq_some_iff.mp hslots.symm
  exact ⟨slot, hsame.symm, hslot⟩

/-- An index stays one while its slots stay. -/
theorem Indexes.mono (h : Indexes slotMap ids index)
    (hentries : ∀ taskId slot, slotMap taskId = some slot → slotMap' taskId = some slot) :
    Indexes slotMap' ids index where
  sorted := h.sorted
  below := h.below
  slots := by
    rw [← h.slots]
    apply List.map_congr_left
    intro taskId hmem
    obtain ⟨position, hposition⟩ := List.mem_iff_getElem?.mp hmem
    obtain ⟨slot, hslot, -⟩ := h.slot_of_position hposition
    rw [hslot, hentries taskId slot hslot]

/-- One more row, with the next slot. -/
theorem Indexes.append (h : Indexes slotMap ids index) {taskId : String}
    (hentries : ∀ taskId slot, slotMap taskId = some slot → slotMap' taskId = some slot)
    (hnew : slotMap' taskId = some index.next) :
    Indexes slotMap' (ids ++ [taskId]) { index with next := index.next + 1 } where
  sorted := h.sorted
  below slot hslot := Nat.lt_succ_of_lt (h.below slot hslot)
  slots := by
    have hfresh : index.next ∉ index.removed := fun hmem ↦ Nat.lt_irrefl _ (h.below _ hmem)
    rw [List.map_append, (h.mono hentries).slots, alive_succ, if_neg hfresh, List.map_append,
      List.map_singleton, List.map_singleton, hnew]

/-- Rows are removed with their slots. -/
theorem Indexes.remove (h : Indexes slotMap ids index) {gone : List Nat} {keep : String → Bool}
    (hkeep : ∀ taskId ∈ ids, ∀ slot, slotMap taskId = some slot →
      (keep taskId = true ↔ slot ∉ gone))
    {removed : List Nat} (hsorted : removed.Pairwise (· < ·))
    (hmem : ∀ slot, slot ∈ removed ↔ slot ∈ index.removed ∨ slot ∈ gone)
    (hgone : ∀ slot ∈ gone, slot < index.next) :
    Indexes slotMap (ids.filter keep) { index with removed := removed } where
  sorted := hsorted
  below slot hslot := by
    rcases (hmem slot).mp hslot with hslot | hslot
    · exact h.below slot hslot
    · exact hgone slot hslot
  slots := by
    have hsome (slot : Nat) : some slot ∈ gone.map some ↔ slot ∈ gone :=
      List.mem_map_of_injective fun _ _ h ↦ Option.some.inj h
    have hfilter : (ids.filter keep).map slotMap =
        (ids.map slotMap).filter fun slot ↦ slot ∉ gone.map some := by
      rw [List.filter_map]
      congr 1
      apply List.filter_congr
      intro taskId htaskId
      obtain ⟨position, hposition⟩ := List.mem_iff_getElem?.mp htaskId
      obtain ⟨slot, hslot, -⟩ := h.slot_of_position hposition
      have hiff := hkeep taskId htaskId slot hslot
      rw [Bool.eq_iff_iff, hiff, Function.comp_apply, hslot, decide_eq_true_iff, hsome]
    rw [hfilter, h.slots, alive_of_removed hmem, List.filter_map]
    congr 1
    apply List.filter_congr
    intro slot _
    simp only [Function.comp_apply, hsome]

end Indexes

section Build

variable {tasks : List TaskDto}

private theorem foldl_slots (tasks : List TaskDto) (hnodup : (taskIds tasks).Nodup) (start : Nat)
    (slotMap : String → Option Nat) :
    let built := (tasks.zipIdx start).foldl (fun slotMap (task, position) ↦
      Function.update slotMap task.taskId (some position)) slotMap
    (∀ (i : Nat) (taskId : String), (taskIds tasks)[i]? = some taskId →
        built taskId = some (start + i)) ∧
      ∀ taskId ∉ taskIds tasks, built taskId = slotMap taskId := by
  induction tasks generalizing start slotMap with
  | nil =>
    refine ⟨fun i taskId hi ↦ ?_, fun taskId _ ↦ rfl⟩
    simp [taskIds] at hi
  | cons task tasks ih =>
    obtain ⟨hfirst, hrest⟩ := List.nodup_cons.mp hnodup
    obtain ⟨hin, hout⟩ := ih hrest (start + 1) (Function.update slotMap task.taskId (some start))
    simp only [List.zipIdx_cons, List.foldl_cons]
    refine ⟨fun i taskId hi ↦ ?_, fun taskId hnot ↦ ?_⟩
    · cases i with
      | zero =>
        obtain rfl : task.taskId = taskId := by simpa [taskIds] using hi
        rw [hout task.taskId hfirst]
        simp
      | succ i =>
        rw [hin i taskId (by simpa [taskIds] using hi)]
        congr 1
        omega
    · have hne : taskId ≠ task.taskId ∧ taskId ∉ taskIds tasks := by
        simpa [taskIds] using hnot
      rw [hout taskId hne.2, Function.update_of_ne hne.1]

private theorem buildSlots_of_position (hnodup : (taskIds tasks).Nodup) {i : Nat} {taskId : String}
    (hi : (taskIds tasks)[i]? = some taskId) : buildSlots tasks taskId = some i := by
  have hslot := (foldl_slots tasks hnodup 0 fun _ ↦ none).1 i taskId hi
  rwa [Nat.zero_add] at hslot

private theorem buildSlots_of_not_mem (hnodup : (taskIds tasks).Nodup) {taskId : String}
    (hnot : taskId ∉ taskIds tasks) : buildSlots tasks taskId = none :=
  (foldl_slots tasks hnodup 0 fun _ ↦ none).2 taskId hnot

/-- A new index is right. -/
theorem indexes_buildSlots (hnodup : (taskIds tasks).Nodup) (slots : Nat) :
    Indexes (buildSlots tasks) (taskIds tasks) { slots, removed := [], next := tasks.length } where
  sorted := List.Pairwise.nil
  below slot hslot := absurd hslot List.not_mem_nil
  slots := by
    have halive : alive tasks.length [] = List.range tasks.length := by simp [alive]
    rw [halive]
    apply List.ext_getElem?
    intro i
    rw [List.getElem?_map, List.getElem?_map]
    by_cases hi : i < tasks.length
    · have hget : (taskIds tasks)[i]? = some tasks[i].taskId := by simp [taskIds, hi]
      rw [List.getElem?_range hi, hget, Option.map_some, Option.map_some,
        buildSlots_of_position hnodup hget]
    · rw [List.getElem?_eq_none (by simpa [taskIds] using hi),
        List.getElem?_eq_none (by simpa using hi)]
      rfl

end Build

/-! ## Lookups -/

/-- The position of the row of a task. -/
def positionOf (tasks : List TaskDto) (taskId : String) : Option Nat :=
  tasks.findIdx? fun task ↦ task.taskId = taskId

section Position

variable {tasks : List TaskDto} {taskId : String}

private theorem positionOf_eq_some (hnodup : (taskIds tasks).Nodup) {position : Nat}
    (h : (taskIds tasks)[position]? = some taskId) : positionOf tasks taskId = some position := by
  have hlt := (List.getElem?_eq_some_iff.mp h).1
  have hlength : (taskIds tasks).length = tasks.length := List.length_map _
  have hget (i : Nat) (hi : i < tasks.length) : (taskIds tasks)[i]? = some tasks[i].taskId := by
    simp [taskIds, hi]
  rw [positionOf, List.findIdx?_eq_some_iff_getElem]
  refine ⟨by omega, ?_, ?_⟩
  · rw [hget position (by omega)] at h
    exact decide_eq_true (Option.some.inj h)
  · intro i hi hsame
    have hother := hget i (by omega)
    rw [of_decide_eq_true hsame] at hother
    have hposition := (List.getElem?_inj hlt hnodup).mp (h.trans hother.symm)
    omega

private theorem positionOf_eq_none (h : taskId ∉ taskIds tasks) :
    positionOf tasks taskId = none := by
  rw [positionOf, List.findIdx?_eq_none_iff]
  intro task htask
  apply decide_eq_false
  rintro rfl
  exact h (List.mem_map_of_mem htask)

end Position

/-- The rows and the version of an array, which a lookup does not change. -/
def TaskArray.content (array : TaskArray) : List TaskDto × Option Nat := (array.rows, array.version)

/-- What a lookup can change: indexes are built, and maps are added. -/
structure Consulted (heap heap' : Heap) : Prop where
  arrays : heap'.arrays.map TaskArray.content = heap.arrays.map TaskArray.content
  taskLog : heap'.taskLog = heap.taskLog
  taskVersionCounter : heap'.taskVersionCounter = heap.taskVersionCounter
  slotMaps : Extends heap.slotMaps heap'.slotMaps

section Consulted

variable {heap heap' heap'' : Heap} {tasks : Nat} {taskId : String}

/-- A heap is itself after no lookup. -/
theorem Consulted.refl (heap : Heap) : Consulted heap heap := ⟨rfl, rfl, rfl, .refl _⟩

/-- Lookups after lookups are lookups. -/
theorem Consulted.trans (h : Consulted heap heap') (h' : Consulted heap' heap'') :
    Consulted heap heap'' :=
  ⟨h'.arrays.trans h.arrays, h'.taskLog.trans h.taskLog,
    h'.taskVersionCounter.trans h.taskVersionCounter, h.slotMaps.trans h'.slotMaps⟩

/-- A lookup changes no contents. -/
theorem Consulted.content (h : Consulted heap heap') (tasks : Nat) :
    (heap'.arrays[tasks]?).map TaskArray.content = (heap.arrays[tasks]?).map TaskArray.content := by
  rw [← List.getElem?_map, ← List.getElem?_map, h.arrays]

/-- A lookup changes no row. -/
theorem Consulted.rows (h : Consulted heap heap') (tasks : Nat) :
    heap'.rows tasks = heap.rows tasks := by
  have hcontent := h.content tasks
  unfold Heap.rows
  cases harray : heap.arrays[tasks]? with
  | none =>
    rw [harray] at hcontent
    rw [Option.map_eq_none_iff.mp hcontent]
  | some array =>
    rw [harray] at hcontent
    obtain ⟨array', harray', hsame⟩ := Option.map_eq_some_iff.mp hcontent
    rw [harray']
    exact congrArg Prod.fst hsame

/-- The rows of an array have distinct ids. -/
theorem Heap.Valid.nodup_rows (h : heap.Valid) (tasks : Nat) :
    (taskIds (heap.rows tasks)).Nodup := by
  unfold Heap.rows
  split
  · next array harray => exact (h array (List.mem_of_getElem? harray)).nodup
  · exact List.Pairwise.nil

/-- An array stays valid with more slot maps. -/
theorem TaskArray.Valid.mono {slotMaps slotMaps' : List (String → Option Nat)} {array : TaskArray}
    (h : array.Valid slotMaps) (hextends : Extends slotMaps slotMaps') : array.Valid slotMaps' where
  nodup := h.nodup
  index index hindex := by
    obtain ⟨slotMap, hslotMap, hindexes⟩ := h.index index hindex
    obtain ⟨slotMap', hslotMap', hentries⟩ := hextends _ _ hslotMap
    exact ⟨slotMap', hslotMap', hindexes.mono hentries⟩

/-- A right index for one array. -/
theorem Heap.Valid.setIndex (h : heap.Valid) {index : TaskIndex} {slotMap : String → Option Nat}
    (hslotMap : heap.slotMaps[index.slots]? = some slotMap)
    (hindexes : Indexes slotMap (taskIds (heap.rows tasks)) index) :
    (heap.setIndex tasks index).Valid := by
  intro array harray
  obtain ⟨i, hi⟩ := List.mem_iff_getElem?.mp harray
  rcases getElem?_modify_some hi with ⟨rfl, before, hbefore, rfl⟩ | ⟨-, hsame⟩
  · refine ⟨(h before (List.mem_of_getElem? hbefore)).nodup, fun index' hindex' ↦ ?_⟩
    obtain rfl := Option.some.inj hindex'
    rw [Heap.rows, hbefore] at hindexes
    exact ⟨slotMap, hslotMap, hindexes⟩
  · exact h array (List.mem_of_getElem? hsame)

private theorem consulted_setIndex (heap : Heap) (tasks : Nat) (index : TaskIndex) :
    Consulted heap (heap.setIndex tasks index) where
  arrays := by
    apply map_modify_of_view
    intro array
    rfl
  taskLog := rfl
  taskVersionCounter := rfl
  slotMaps := .refl _

private theorem consulted_buildTaskIndex (heap : Heap) (tasks : Nat) :
    Consulted heap (heap.buildTaskIndex tasks).2 := ⟨rfl, rfl, rfl, .append _ _⟩

private theorem valid_buildTaskIndex (h : heap.Valid) (tasks : Nat) :
    (heap.buildTaskIndex tasks).2.Valid :=
  fun array harray ↦ (h array harray).mono (consulted_buildTaskIndex heap tasks).slotMaps

private theorem slotMap_buildTaskIndex (heap : Heap) (tasks : Nat) :
    (heap.buildTaskIndex tasks).2.slotMaps[(heap.buildTaskIndex tasks).1.slots]? =
      some (buildSlots (heap.rows tasks)) := by
  simp [Heap.buildTaskIndex]

private theorem indexes_buildTaskIndex (h : heap.Valid) (tasks : Nat) :
    Indexes (buildSlots (heap.rows tasks)) (taskIds (heap.rows tasks))
      (heap.buildTaskIndex tasks).1 :=
  indexes_buildSlots (h.nodup_rows tasks) _

/-- An index is built and remembered. -/
theorem build_spec (h : heap.Valid) (tasks : Nat) :
    Consulted heap ((heap.buildTaskIndex tasks).2.setIndex tasks (heap.buildTaskIndex tasks).1) ∧
      ((heap.buildTaskIndex tasks).2.setIndex tasks (heap.buildTaskIndex tasks).1).Valid := by
  have hbuild := consulted_buildTaskIndex heap tasks
  refine ⟨hbuild.trans (consulted_setIndex _ _ _), ?_⟩
  apply (valid_buildTaskIndex h tasks).setIndex (slotMap_buildTaskIndex heap tasks)
  rw [hbuild.rows]
  exact indexes_buildTaskIndex h tasks

/-- The index of an array is right. -/
theorem taskIndexOf_spec (h : heap.Valid) (tasks : Nat) :
    Consulted heap (heap.taskIndexOf tasks).2 ∧ (heap.taskIndexOf tasks).2.Valid ∧
      ∃ slotMap, (heap.taskIndexOf tasks).2.slotMaps[(heap.taskIndexOf tasks).1.slots]? =
          some slotMap ∧
        Indexes slotMap (taskIds (heap.rows tasks)) (heap.taskIndexOf tasks).1 := by
  unfold Heap.taskIndexOf
  split
  · next index hindex =>
    obtain ⟨array, harray, hindex⟩ := Option.bind_eq_some_iff.mp hindex
    refine ⟨.refl heap, h, ?_⟩
    rw [Heap.rows, harray]
    exact (h array (List.mem_of_getElem? harray)).index index hindex
  · obtain ⟨hconsulted, hvalid⟩ := build_spec h tasks
    exact ⟨hconsulted, hvalid, _, slotMap_buildTaskIndex heap tasks, indexes_buildTaskIndex h tasks⟩

/-- A right index gives the position of each row, and its row reads back. -/
theorem Indexes.position {slotMap : String → Option Nat} {ids : List String} {index : TaskIndex}
    (h : Indexes slotMap ids index) {position : Nat} (hposition : ids[position]? = some taskId) :
    ∃ slot, slotMap taskId = some slot ∧ slot < index.next ∧ slot ∉ index.removed ∧
      countBelow index.removed slot ≤ slot ∧ slot - countBelow index.removed slot = position := by
  obtain ⟨slot, hslot, halive⟩ := h.slot_of_position hposition
  obtain ⟨hlt, hremoved, hsum⟩ := position_of_alive (h.sorted.imp Nat.ne_of_lt) halive
  rw [← countBelow_eq h.sorted] at hsum
  exact ⟨slot, hslot, hlt, hremoved, by omega, by omega⟩

/-- A lookup finds the row of the task, whatever others have written into the map. -/
theorem findTaskIndex_spec (h : heap.Valid) (tasks : Nat) (taskId : String) :
    (heap.findTaskIndex tasks taskId).1 = positionOf (heap.rows tasks) taskId ∧
      Consulted heap (heap.findTaskIndex tasks taskId).2 ∧
        (heap.findTaskIndex tasks taskId).2.Valid := by
  obtain ⟨hconsulted, hvalid, slotMap, hslotMap, hindexes⟩ := taskIndexOf_spec h tasks
  have hnodup := h.nodup_rows tasks
  unfold Heap.findTaskIndex
  dsimp only
  revert hconsulted hvalid hslotMap hindexes
  generalize heap.taskIndexOf tasks = found
  obtain ⟨index, heap'⟩ := found
  dsimp only
  intro hconsulted hvalid hslotMap hindexes
  have hslotOf : heap'.slotOf index.slots taskId = slotMap taskId := by
    rw [Heap.slotOf, hslotMap]
  -- a task that the index does not find has no row
  have habsent : (∀ position slot : Nat, (taskIds (heap.rows tasks))[position]? = some taskId →
      slotMap taskId = some slot → slot < index.next → slot ∉ index.removed → False) →
        positionOf (heap.rows tasks) taskId = none := by
    intro hnot
    apply positionOf_eq_none
    intro hmem
    obtain ⟨position, hposition⟩ := List.mem_iff_getElem?.mp hmem
    obtain ⟨slot, hslot, hlt, hremoved, -⟩ := hindexes.position hposition
    exact hnot position slot hposition hslot hlt hremoved
  rw [hslotOf]
  cases hslot : slotMap taskId with
  | none =>
    refine ⟨(habsent fun position slot _ hsome _ _ ↦ ?_).symm, hconsulted, hvalid⟩
    rw [hslot] at hsome
    cases hsome
  | some slot =>
    dsimp only
    split
    · next hnext =>
      refine ⟨(habsent fun position slot' _ hsome hlt _ ↦ ?_).symm, hconsulted, hvalid⟩
      rw [hslot] at hsome
      obtain rfl := Option.some.inj hsome
      omega
    · split
      · next hthere =>
        refine ⟨(habsent fun position slot' _ hsome _ hremoved ↦ ?_).symm, hconsulted, hvalid⟩
        rw [hslot] at hsome
        obtain rfl := Option.some.inj hsome
        exact hremoved (List.mem_of_getElem? hthere)
      · split
        · next hread =>
          refine ⟨?_, hconsulted, hvalid⟩
          obtain ⟨-, hread⟩ := hread
          rw [hconsulted.rows, ← List.getElem?_map] at hread
          exact (positionOf_eq_some hnodup hread).symm
        · obtain ⟨hbuilt, hbuiltValid⟩ := build_spec hvalid tasks
          refine ⟨?_, hconsulted.trans hbuilt, hbuiltValid⟩
          have hread : ((heap'.buildTaskIndex tasks).2.setIndex tasks
              (heap'.buildTaskIndex tasks).1).slotOf (heap'.buildTaskIndex tasks).1.slots taskId =
                buildSlots (heap'.rows tasks) taskId := by
            simp only [Heap.slotOf, Heap.setIndex, Heap.onArray, slotMap_buildTaskIndex]
          rw [hread, hconsulted.rows]
          by_cases hmem : taskId ∈ taskIds (heap.rows tasks)
          · obtain ⟨position, hposition⟩ := List.mem_iff_getElem?.mp hmem
            rw [buildSlots_of_position hnodup hposition, positionOf_eq_some hnodup hposition]
          · rw [buildSlots_of_not_mem hnodup hmem, positionOf_eq_none hmem]

/-- A new entry of a map, which does not replace another. -/
theorem setSlot_spec (h : heap.Valid) {index : TaskIndex} {slotMap : String → Option Nat}
    (hslotMap : heap.slotMaps[index.slots]? = some slotMap) (hnew : slotMap taskId = none)
    {ids : List String} (hindexes : Indexes slotMap ids index) :
    Consulted heap (heap.setSlot index.slots taskId index.next) ∧
      (heap.setSlot index.slots taskId index.next).Valid ∧
        ∃ slotMap', (heap.setSlot index.slots taskId index.next).slotMaps[index.slots]? =
            some slotMap' ∧
          Indexes slotMap' (ids ++ [taskId]) { index with next := index.next + 1 } := by
  have hentries : ∀ other slot, slotMap other = some slot →
      Function.update slotMap taskId (some index.next) other = some slot := by
    intro other slot hslot
    have hne : other ≠ taskId := by
      rintro rfl
      rw [hnew] at hslot
      cases hslot
    rw [Function.update_of_ne hne, hslot]
  have hwritten : (heap.setSlot index.slots taskId index.next).slotMaps[index.slots]? =
      some (Function.update slotMap taskId (some index.next)) := by
    simp [Heap.setSlot, hslotMap]
  have hextends : Extends heap.slotMaps (heap.setSlot index.slots taskId index.next).slotMaps := by
    intro ref before hbefore
    by_cases hsame : index.slots = ref
    · subst hsame
      rw [hslotMap] at hbefore
      obtain rfl := Option.some.inj hbefore
      exact ⟨_, hwritten, hentries⟩
    · refine ⟨before, ?_, fun _ _ hslot ↦ hslot⟩
      rw [Heap.setSlot, List.getElem?_modify_ne _ _ hsame, hbefore]
  refine ⟨⟨rfl, rfl, rfl, hextends⟩, fun array harray ↦ (h array harray).mono hextends, _, hwritten,
    hindexes.append hentries ?_⟩
  rw [Function.update_self]

/-- A new task gets a slot that its array did not give away. -/
theorem indexAppend_spec (h : heap.Valid) (tasks : Nat) {taskId : String}
    (hnew : taskId ∉ taskIds (heap.rows tasks)) :
    Consulted heap (heap.indexAppend tasks taskId).2 ∧
      (heap.indexAppend tasks taskId).2.Valid ∧
        ∃ slotMap, (heap.indexAppend tasks taskId).2.slotMaps[(heap.indexAppend tasks taskId).1.slots]?
            = some slotMap ∧
          Indexes slotMap (taskIds (heap.rows tasks) ++ [taskId])
            (heap.indexAppend tasks taskId).1 := by
  obtain ⟨hconsulted, hvalid, slotMap, hslotMap, hindexes⟩ := taskIndexOf_spec h tasks
  have hnodup := h.nodup_rows tasks
  unfold Heap.indexAppend
  dsimp only
  revert hconsulted hvalid hslotMap hindexes
  generalize heap.taskIndexOf tasks = found
  obtain ⟨index, heap'⟩ := found
  dsimp only
  intro hconsulted hvalid hslotMap hindexes
  split
  · -- the entry is of a row that was removed, or of another branch
    have hbuilt := consulted_buildTaskIndex heap' tasks
    have hindexes' := indexes_buildTaskIndex hvalid tasks
    have hnone : buildSlots (heap'.rows tasks) taskId = none := by
      rw [hconsulted.rows]
      exact buildSlots_of_not_mem hnodup hnew
    obtain ⟨hwritten, hwrittenValid, hslots⟩ :=
      setSlot_spec (valid_buildTaskIndex hvalid tasks) (slotMap_buildTaskIndex heap' tasks) hnone
        hindexes'
    rw [hconsulted.rows] at hslots
    exact ⟨(hconsulted.trans hbuilt).trans hwritten, hwrittenValid, hslots⟩
  · next hnone =>
    rw [Heap.slotOf, hslotMap, Bool.not_eq_true, Option.isSome_eq_false_iff,
      Option.isNone_iff_eq_none] at hnone
    obtain ⟨hwritten, hwrittenValid, hslots⟩ := setSlot_spec hvalid hslotMap hnone hindexes
    exact ⟨hconsulted.trans hwritten, hwrittenValid, hslots⟩

end Consulted

end Web
