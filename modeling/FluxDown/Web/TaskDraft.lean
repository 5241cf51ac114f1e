import FluxDown.Base.Run
import FluxDown.Web.TaskIndex

/-!
# Drafts of the projection

Library `Web`. A batch of events is applied to a draft, which copies the array of the tasks when it
first writes and hands out what it made at the end. Drafts on one array are branches that share its
map. The state has every array that was made; those that are handed out are not changed any more.
-/

namespace Web

open Base

/-- A change of a task, which keeps its identity. -/
structure TaskUpdate where
  apply : TaskDto → TaskDto
  taskId_apply : ∀ task, (apply task).taskId = task.taskId

/-- A table from outside, without two rows of one task. -/
structure TaskTable where
  rows : List TaskDto
  nodup : (taskIds rows).Nodup

/-- The part of a draft that is about the tasks (`src/web/src/lib/rpc/apply.ts:351–368`). -/
structure DaemonDraft where
  tasks : Nat
  baseTasks : Nat
  tasksOwned : Bool := false
  touched : List String := []
  tasksReset : Bool := false

namespace Heap

/-- The version of an array (`apply.ts:226–234`). -/
def taskVersionOf (heap : Heap) (tasks : Nat) : Nat × Heap :=
  match heap.arrays[tasks]?.bind TaskArray.version with
  | some version => (version, heap)
  | none =>
    let version := heap.taskVersionCounter + 1
    (version, { heap.onArray tasks fun array ↦ { array with version := some version } with
      taskVersionCounter := version })

/-- The most versions of the log (`apply.ts:225`). -/
def taskLogLimit : Nat := 256

/-- Log what a draft touched; of a long log, the older half is dropped (`apply.ts:236–249`). -/
def recordTaskDelta (heap : Heap) (base next : Nat) (ids : Option (List String)) : Heap :=
  let (parent, heap) := heap.taskVersionOf base
  let version := heap.taskVersionCounter + 1
  let taskLog := heap.taskLog ++ [(version, { parent, ids })]
  { heap.onArray next fun array ↦ { array with version := some version } with
    taskVersionCounter := version
    taskLog := if taskLogLimit < taskLog.length then
        taskLog.drop (taskLog.length - taskLogLimit / 2)
      else taskLog }

/-- The positions of tasks that have a row (`apply.ts:491–495`). -/
def foundPositions (heap : Heap) (tasks : Nat) : List String → List Nat × Heap
  | [] => ([], heap)
  | taskId :: taskIds =>
    let (position, heap) := heap.findTaskIndex tasks taskId
    let (positions, heap) := heap.foundPositions tasks taskIds
    (position.toList ++ positions, heap)

end Heap

namespace DaemonDraft

/-- A draft of a snapshot with these tasks (`apply.ts:365–368`). -/
def new (baseTasks : Nat) : DaemonDraft := { tasks := baseTasks, baseTasks }

/-- Copy the array before the first write (`apply.ts:414–424`). -/
def writableTasks (draft : DaemonDraft) (heap : Heap) : DaemonDraft × Heap :=
  if draft.tasksOwned then (draft, heap)
  else
    let (index, heap) := heap.taskIndexOf draft.tasks
    let (copy, heap) := heap.alloc (heap.rows draft.tasks) (some index)
    ({ draft with tasks := copy, tasksOwned := true }, heap)

/-- Change a task that has a row (`apply.ts:463–470`). -/
def patchTask (draft : DaemonDraft) (heap : Heap) (taskId : String) (update : TaskUpdate) :
    DaemonDraft × Heap :=
  match heap.findTaskIndex draft.tasks taskId with
  | (none, heap) => (draft, heap)
  | (some position, heap) =>
    let (draft, heap) := draft.writableTasks heap
    ({ draft with touched := draft.touched ++ [taskId] },
      heap.onArray draft.tasks fun array ↦
        { array with rows := array.rows.modify position update.apply })

/-- Replace a task that has a row, or append it (`apply.ts:472–483`). -/
def upsertTask (draft : DaemonDraft) (heap : Heap) (task : TaskDto) : DaemonDraft × Heap :=
  match heap.findTaskIndex draft.tasks task.taskId with
  | (some position, heap) =>
    let (draft, heap) := draft.writableTasks heap
    ({ draft with touched := draft.touched ++ [task.taskId] },
      heap.onArray draft.tasks fun array ↦
        { array with rows := array.rows.modify position fun _ ↦ task })
  | (none, heap) =>
    let (draft, heap) := draft.writableTasks heap
    let (index, heap) := heap.indexAppend draft.tasks task.taskId
    ({ draft with touched := draft.touched ++ [task.taskId] },
      (heap.setIndex draft.tasks index).onArray draft.tasks fun array ↦
        { array with rows := array.rows ++ [task] })

/-- Remove the tasks that have a row, from a set of tasks (`apply.ts:485–526`). -/
def removeTasks (draft : DaemonDraft) (heap : Heap) (ids : List String) : DaemonDraft × Heap :=
  let before := draft.tasks
  let (index, heap) := heap.taskIndexOf before
  match heap.foundPositions before ids.dedup with
  | ([], heap) => (draft, heap)
  | (positions, heap) =>
    let positions := positions.mergeSort
    let rows := heap.rows before
    let touched := taskIds (entriesAt rows positions)
    let slots := touched.map fun taskId ↦ (heap.slotOf index.slots taskId).getD 0
    let kept := if positions.length ≤ spliceLimit then splice positions rows
      else segments rows 0 positions
    let removed := mergeSorted index.removed slots
    let (tasks, heap) := heap.alloc kept
      (if removed.length ≤ compactRemoved then some { index with removed } else none)
    ({ draft with tasks, tasksOwned := true, touched := draft.touched ++ touched }, heap)

/-- Take an array of an event (`apply.ts:426–447`). -/
def installTasks (draft : DaemonDraft) (heap : Heap) (tasks : Nat) : DaemonDraft × Heap :=
  let (index, heap) := heap.buildTaskIndex tasks
  ({ draft with tasks, tasksOwned := false, tasksReset := true }, heap.setIndex tasks index)

/-- Start with an empty array (`apply.ts:455–461`). -/
def beginReload (draft : DaemonDraft) (heap : Heap) : DaemonDraft × Heap :=
  let (tasks, heap) := heap.alloc [] none
  ({ draft with tasks, tasksOwned := false, tasksReset := true }, heap)

/-- Take the snapshot of an event, with its array (`apply.ts:384–392`). -/
def replace (draft : DaemonDraft) (tasks : Nat) : DaemonDraft :=
  { draft with tasks, tasksOwned := false, tasksReset := true }

/-- Log what was touched, if there is another array than at the start (`apply.ts:371–375`). -/
def finish (draft : DaemonDraft) (heap : Heap) : Heap :=
  if draft.tasks = draft.baseTasks then heap
  else
    heap.recordTaskDelta draft.baseTasks draft.tasks
      (if draft.tasksReset then none else some draft.touched)

end DaemonDraft

/-- The memory, the drafts in work, and the arrays that are not changed any more. -/
structure Projection where
  heap : Heap := {}
  drafts : Nat → Option DaemonDraft := fun _ ↦ none
  shared : List Nat := []

/-- What happens to a projection. Several drafts can be in work at a time, and lookups come at any
time; the log may be trimmed at any time. -/
inductive Action
  | arrive (table : TaskTable)
  | lookup (tasks : Nat) (taskId : String)
  | trim (keep : Nat → Bool)
  | begin (draft baseTasks : Nat)
  | patchTask (draft : Nat) (taskId : String) (update : TaskUpdate)
  | upsertTask (draft : Nat) (task : TaskDto)
  | removeTasks (draft : Nat) (ids : List String)
  | installTasks (draft tasks : Nat)
  | beginReload (draft : Nat)
  | replace (draft tasks : Nat)
  | finish (draft : Nat)

namespace Projection

/-- A draft does something. -/
def onDraft (projection : Projection) (draft : Nat)
    (f : DaemonDraft → Heap → DaemonDraft × Heap) : Projection :=
  match projection.drafts draft with
  | none => projection
  | some current =>
    let (changed, heap) := f current projection.heap
    { projection with heap, drafts := Function.update projection.drafts draft (some changed) }

/-- One action. Drafts start from arrays that are shared, and take only those; an action for which
this is not so does nothing. -/
def step (projection : Projection) : Action → Projection
  | .arrive table =>
    let (tasks, heap) := projection.heap.alloc table.rows none
    { projection with heap, shared := tasks :: projection.shared }
  | .lookup tasks taskId =>
    { projection with heap := (projection.heap.findTaskIndex tasks taskId).2 }
  | .trim keep =>
    { projection with heap := { projection.heap with
        taskLog := projection.heap.taskLog.filter fun entry ↦ keep entry.1 } }
  | .begin draft baseTasks =>
    if baseTasks ∈ projection.shared ∧ projection.drafts draft = none then
      { projection with drafts := Function.update projection.drafts draft (some (.new baseTasks)) }
    else projection
  | .patchTask draft taskId update =>
    projection.onDraft draft fun draft heap ↦ draft.patchTask heap taskId update
  | .upsertTask draft task => projection.onDraft draft fun draft heap ↦ draft.upsertTask heap task
  | .removeTasks draft ids => projection.onDraft draft fun draft heap ↦ draft.removeTasks heap ids
  | .installTasks draft tasks =>
    if tasks ∈ projection.shared then
      projection.onDraft draft fun draft heap ↦ draft.installTasks heap tasks
    else projection
  | .beginReload draft =>
    match projection.drafts draft with
    | none => projection
    | some current =>
      let (changed, heap) := current.beginReload projection.heap
      { heap, drafts := Function.update projection.drafts draft (some changed),
        shared := changed.tasks :: projection.shared }
  | .replace draft tasks =>
    if tasks ∈ projection.shared then
      projection.onDraft draft fun draft heap ↦ (draft.replace tasks, heap)
    else projection
  | .finish draft =>
    match projection.drafts draft with
    | none => projection
    | some current =>
      { heap := current.finish projection.heap
        drafts := Function.update projection.drafts draft none
        shared := current.tasks :: projection.shared }

end Projection

/-! ## Rows that are not touched -/

/-- The rows of other tasks are the same objects in the same order. -/
def Untouched (ids : List String) (before after : List TaskDto) : Prop :=
  before.filter (fun task ↦ task.taskId ∉ ids) = after.filter fun task ↦ task.taskId ∉ ids

/-- Rows are untouched by nothing. -/
theorem Untouched.refl (ids : List String) (rows : List TaskDto) : Untouched ids rows rows := rfl

/-- Rows that are untouched outside some ids are untouched outside more. -/
theorem Untouched.mono {ids ids' : List String} {before after : List TaskDto}
    (h : Untouched ids before after) (hsub : ids ⊆ ids') : Untouched ids' before after := by
  have hfilter : ∀ rows : List TaskDto, rows.filter (fun task ↦ task.taskId ∉ ids') =
      (rows.filter fun task ↦ task.taskId ∉ ids).filter fun task ↦ task.taskId ∉ ids' := by
    intro rows
    rw [List.filter_filter]
    apply List.filter_congr
    intro task _
    have himp : task.taskId ∈ ids → task.taskId ∈ ids' := fun h ↦ hsub h
    by_cases hmem : task.taskId ∈ ids
    · simp [hmem, himp hmem]
    · simp [hmem]
  rw [Untouched, hfilter before, hfilter after]
  exact congrArg _ h

/-- Rows that are untouched twice are untouched outside both. -/
theorem Untouched.trans {ids ids' : List String} {a b c : List TaskDto} (h : Untouched ids a b)
    (h' : Untouched ids' b c) : Untouched (ids ++ ids') a c :=
  Eq.trans (h.mono (List.subset_append_left ids ids'))
    (h'.mono (List.subset_append_right ids ids'))

/-- A task that is not touched has the same row. -/
theorem Untouched.find?_eq {ids : List String} {before after : List TaskDto}
    (h : Untouched ids before after) {taskId : String} (hnot : taskId ∉ ids) :
    (before.find? fun task ↦ task.taskId = taskId) =
      after.find? fun task ↦ task.taskId = taskId := by
  have hfilter : ∀ rows : List TaskDto, (rows.find? fun task ↦ task.taskId = taskId) =
      (rows.filter fun task ↦ task.taskId ∉ ids).find? fun task ↦ task.taskId = taskId := by
    intro rows
    rw [List.find?_filter]
    congr 1
    funext task
    by_cases hsame : task.taskId = taskId
    · simp [hsame, hnot]
    · simp [hsame]
  rw [hfilter before, hfilter after, h]

section Rows

variable {rows : List TaskDto} {position : Nat} {row : TaskDto} {f : TaskDto → TaskDto}

private theorem taskIds_modify (hrow : rows[position]? = some row)
    (hf : (f row).taskId = row.taskId) :
    taskIds (rows.modify position f) = taskIds rows := by
  obtain ⟨before, after, hsplit, -, hmodify⟩ := exists_split_modify (f := f) hrow
  rw [hmodify, hsplit, taskIds, taskIds, List.map_append, List.map_append, List.map_cons,
    List.map_cons, hf]

private theorem untouched_modify (hrow : rows[position]? = some row)
    (hf : (f row).taskId = row.taskId) :
    Untouched [row.taskId] rows (rows.modify position f) := by
  obtain ⟨before, after, hsplit, -, hmodify⟩ := exists_split_modify (f := f) hrow
  rw [hmodify, hsplit, Untouched, List.filter_append, List.filter_append, List.filter_cons_of_neg,
    List.filter_cons_of_neg]
  · simp [hf]
  · simp

private theorem untouched_append (rows : List TaskDto) (task : TaskDto) :
    Untouched [task.taskId] rows (rows ++ [task]) := by
  rw [Untouched, List.filter_append, List.filter_cons_of_neg, List.filter_nil, List.append_nil]
  simp

private theorem row_of_positionOf {taskId : String} (h : positionOf rows taskId = some position) :
    ∃ row, rows[position]? = some row ∧ row.taskId = taskId := by
  obtain ⟨hlt, htaskId, -⟩ := List.findIdx?_eq_some_iff_getElem.mp h
  exact ⟨_, List.getElem?_eq_getElem hlt, of_decide_eq_true htaskId⟩

private theorem not_mem_of_positionOf {taskId : String} (h : positionOf rows taskId = none) :
    taskId ∉ taskIds rows := by
  intro hmem
  obtain ⟨row, hrow, hsame⟩ := List.mem_map.mp hmem
  have hnot := List.findIdx?_eq_none_iff.mp h row hrow
  rw [decide_eq_false_iff_not] at hnot
  exact hnot hsame

/-- A row of the table is known by its task. -/
theorem eq_of_taskId (hnodup : (taskIds rows).Nodup) {a b : TaskDto} (ha : a ∈ rows) (hb : b ∈ rows)
    (h : a.taskId = b.taskId) : a = b := List.inj_on_of_nodup_map hnodup ha hb h

/-- The rows that stay when rows are removed. -/
theorem taskIds_filter_entries (hnodup : (taskIds rows).Nodup) (positions : List Nat) :
    taskIds (rows.filter fun task ↦ task ∉ entriesAt rows positions) =
      (taskIds rows).filter fun taskId ↦ taskId ∉ taskIds (entriesAt rows positions) := by
  rw [taskIds, show taskIds rows = rows.map TaskDto.taskId from rfl, List.filter_map]
  congr 1
  apply List.filter_congr
  intro task htask
  have hiff : task ∈ entriesAt rows positions ↔
      task.taskId ∈ taskIds (entriesAt rows positions) := by
    constructor
    · exact List.mem_map_of_mem
    · intro hmem
      obtain ⟨other, hother, hsame⟩ := List.mem_map.mp hmem
      obtain ⟨i, -, hi⟩ := mem_entriesAt.mp hother
      rw [← eq_of_taskId hnodup (List.mem_of_getElem? hi) htask hsame]
      exact hother
  simp only [Function.comp_apply, hiff]

private theorem untouched_filter_entries (rows : List TaskDto) (positions : List Nat) :
    Untouched (taskIds (entriesAt rows positions)) rows
      (rows.filter fun task ↦ task ∉ entriesAt rows positions) := by
  rw [Untouched, List.filter_filter]
  apply List.filter_congr
  intro task _
  by_cases hmem : task ∈ entriesAt rows positions
  · have hid : task.taskId ∈ taskIds (entriesAt rows positions) := List.mem_map_of_mem hmem
    simp [hid]
  · simp [hmem]

end Rows

/-! ## What a draft does to the memory -/

/-- The version of an array. -/
def Heap.versionOf (heap : Heap) (tasks : Nat) : Option Nat :=
  heap.arrays[tasks]?.bind TaskArray.version

/-- Arrays are added, and of those that were there only `mine` get other rows. -/
structure Worked (mine : Nat → Prop) (heap heap' : Heap) : Prop where
  rows : ∀ tasks, tasks < heap.arrays.length → ¬ mine tasks → heap'.rows tasks = heap.rows tasks
  versions : ∀ tasks, heap'.versionOf tasks = heap.versionOf tasks
  length : heap.arrays.length ≤ heap'.arrays.length
  taskLog : heap'.taskLog = heap.taskLog
  taskVersionCounter : heap'.taskVersionCounter = heap.taskVersionCounter

section Worked

variable {mine : Nat → Prop} {heap heap' heap'' : Heap} {tasks : Nat}

/-- No work leaves the heap as it is. -/
theorem Worked.refl (mine : Nat → Prop) (heap : Heap) : Worked mine heap heap :=
  ⟨fun _ _ _ ↦ rfl, fun _ ↦ rfl, Nat.le_refl _, rfl, rfl⟩

/-- Work after work is work. -/
theorem Worked.trans (h : Worked mine heap heap') (h' : Worked mine heap' heap'') :
    Worked mine heap heap'' where
  rows tasks hlt hnot := by
    rw [h'.rows tasks (Nat.lt_of_lt_of_le hlt h.length) hnot, h.rows tasks hlt hnot]
  versions tasks := (h'.versions tasks).trans (h.versions tasks)
  length := Nat.le_trans h.length h'.length
  taskLog := h'.taskLog.trans h.taskLog
  taskVersionCounter := h'.taskVersionCounter.trans h.taskVersionCounter

/-- Looking rows up adds no array. -/
theorem Consulted.length (h : Consulted heap heap') : heap'.arrays.length = heap.arrays.length := by
  have hlength := congrArg List.length h.arrays
  rwa [List.length_map, List.length_map] at hlength

/-- Looking rows up works on no array. -/
theorem Consulted.worked (h : Consulted heap heap') (mine : Nat → Prop) :
    Worked mine heap heap' where
  rows tasks _ _ := h.rows tasks
  versions tasks := by
    have hcontent := h.content tasks
    unfold Heap.versionOf
    cases harray : heap.arrays[tasks]? with
    | none =>
      rw [harray] at hcontent
      rw [Option.map_eq_none_iff.mp hcontent]
    | some array =>
      rw [harray] at hcontent
      obtain ⟨array', harray', hsame⟩ := Option.map_eq_some_iff.mp hcontent
      rw [harray']
      exact congrArg Prod.snd hsame
  length := Nat.le_of_eq h.length.symm
  taskLog := h.taskLog
  taskVersionCounter := h.taskVersionCounter

/-- A new array works on no old one. -/
theorem worked_alloc (mine : Nat → Prop) (heap : Heap) (rows : List TaskDto)
    (index : Option TaskIndex) : Worked mine heap (heap.alloc rows index).2 where
  rows tasks hlt _ := by
    simp only [Heap.rows, Heap.alloc]
    rw [List.getElem?_append_left hlt]
  versions tasks := by
    simp only [Heap.versionOf, Heap.alloc]
    by_cases hlt : tasks < heap.arrays.length
    · rw [List.getElem?_append_left hlt]
    · have hnone : heap.arrays[tasks]? = none := List.getElem?_eq_none (by omega)
      rw [List.getElem?_append_right (by omega), hnone]
      cases tasks - heap.arrays.length with
      | zero => rfl
      | succ n => rfl
  length := by simp [Heap.alloc]
  taskLog := rfl
  taskVersionCounter := rfl

private theorem worked_onArray (hmine : mine tasks) {f : TaskArray → TaskArray}
    (hf : ∀ array, (f array).version = array.version) (heap : Heap) :
    Worked mine heap (heap.onArray tasks f) where
  rows other _ hnot := by
    have hne : tasks ≠ other := by
      rintro rfl
      exact hnot hmine
    simp only [Heap.rows, Heap.onArray]
    rw [List.getElem?_modify_ne _ _ hne]
  versions other := by
    simp only [Heap.versionOf, Heap.onArray]
    by_cases hsame : tasks = other
    · subst hsame
      rw [List.getElem?_modify_eq]
      cases heap.arrays[tasks]? with
      | none => rfl
      | some array => exact hf array
    · rw [List.getElem?_modify_ne _ _ hsame]
  length := by simp [Heap.onArray]
  taskLog := rfl
  taskVersionCounter := rfl

private theorem rows_alloc (heap : Heap) (rows : List TaskDto) (index : Option TaskIndex) :
    (heap.alloc rows index).2.rows (heap.alloc rows index).1 = rows := by
  simp [Heap.rows, Heap.alloc]

/-- A new array keeps the heap valid. -/
theorem Heap.Valid.alloc (h : heap.Valid) {rows : List TaskDto} {index : Option TaskIndex}
    (harray : TaskArray.Valid heap.slotMaps { rows, index }) : (heap.alloc rows index).2.Valid := by
  intro array hmem
  rcases List.mem_append.mp hmem with hmem | hmem
  · exact h array hmem
  · rw [List.mem_singleton.mp hmem]
    exact harray

/-- A change of an array that keeps it valid keeps the heap valid. -/
theorem Heap.Valid.onArray (h : heap.Valid) {f : TaskArray → TaskArray}
    (hf : ∀ array, heap.arrays[tasks]? = some array → (f array).Valid heap.slotMaps) :
    (heap.onArray tasks f).Valid := by
  intro array hmem
  obtain ⟨i, hi⟩ := List.mem_iff_getElem?.mp hmem
  rcases getElem?_modify_some hi with ⟨rfl, before, hbefore, rfl⟩ | ⟨-, hsame⟩
  · exact hf before hbefore
  · exact h array (List.mem_of_getElem? hsame)

end Worked

/-- The array that a draft writes. -/
def DaemonDraft.mine (draft : DaemonDraft) (tasks : Nat) : Prop :=
  draft.tasksOwned = true ∧ tasks = draft.tasks

/-- What a draft does when it writes tasks: its array is the one it owned, or a new one, and it
remembers the tasks whose rows are other ones. -/
structure Drafted (draft : DaemonDraft) (heap : Heap) (draft' : DaemonDraft) (heap' : Heap) :
    Prop where
  valid : heap'.Valid
  worked : Worked draft'.mine heap heap'
  baseTasks : draft'.baseTasks = draft.baseTasks
  tasksReset : draft'.tasksReset = draft.tasksReset
  inside : draft'.tasks < heap'.arrays.length
  owned : draft'.tasksOwned = true →
    draft.tasksOwned = true ∧ draft'.tasks = draft.tasks ∨ heap.arrays.length ≤ draft'.tasks
  notOwned : draft'.tasksOwned = false → draft.tasksOwned = false ∧ draft'.tasks = draft.tasks
  touched : ∃ ids, draft'.touched = draft.touched ++ ids ∧
    Untouched ids (heap.rows draft.tasks) (heap'.rows draft'.tasks)

section Drafted

variable {draft draft' : DaemonDraft} {heap heap' : Heap}

/-- A draft that only looks. -/
theorem drafted_of_consulted (hinside : draft.tasks < heap.arrays.length)
    (hconsulted : Consulted heap heap') (hvalid : heap'.Valid) : Drafted draft heap draft heap' where
  valid := hvalid
  worked := hconsulted.worked _
  baseTasks := rfl
  tasksReset := rfl
  inside := by rwa [hconsulted.length]
  owned howned := .inl ⟨howned, rfl⟩
  notOwned hnot := ⟨hnot, rfl⟩
  touched := ⟨[], by rw [List.append_nil], by rw [hconsulted.rows]; exact .refl _ _⟩

/-- The array of a draft that writes. -/
theorem writableTasks_spec (h : heap.Valid) (hinside : draft.tasks < heap.arrays.length) :
    Drafted draft heap (draft.writableTasks heap).1 (draft.writableTasks heap).2 ∧
      (draft.writableTasks heap).1.tasksOwned = true ∧
        (draft.writableTasks heap).1.touched = draft.touched ∧
          (draft.writableTasks heap).2.rows (draft.writableTasks heap).1.tasks =
            heap.rows draft.tasks := by
  unfold DaemonDraft.writableTasks
  by_cases howned : draft.tasksOwned = true
  · rw [if_pos howned]
    exact ⟨drafted_of_consulted hinside (.refl heap) h, howned, rfl, rfl⟩
  · rw [if_neg howned]
    obtain ⟨hconsulted, hvalid, slotMap, hslotMap, hindexes⟩ := taskIndexOf_spec h draft.tasks
    have hnodup := h.nodup_rows draft.tasks
    have hrows := hconsulted.rows draft.tasks
    have hlength := hconsulted.length
    have hnew : TaskArray.Valid (heap.taskIndexOf draft.tasks).2.slotMaps
        { rows := (heap.taskIndexOf draft.tasks).2.rows draft.tasks,
          index := some (heap.taskIndexOf draft.tasks).1 } := by
      refine ⟨by rwa [hrows], fun index hindex ↦ ?_⟩
      obtain rfl := Option.some.inj hindex
      exact ⟨slotMap, hslotMap, by rwa [hrows]⟩
    refine ⟨?_, rfl, rfl, (rows_alloc _ _ _).trans hrows⟩
    constructor
    case valid => exact hvalid.alloc hnew
    case worked => exact (hconsulted.worked _).trans (worked_alloc _ _ _ _)
    case baseTasks => rfl
    case tasksReset => rfl
    case inside => simp [Heap.alloc]
    case owned => exact fun _ ↦ .inr (Nat.le_of_eq hlength.symm)
    case notOwned => exact fun hfalse ↦ Bool.noConfusion hfalse
    case touched =>
      refine ⟨[], by rw [List.append_nil], ?_⟩
      dsimp only
      rw [rows_alloc, hrows]
      exact .refl _ _

/-- A write after a lookup. -/
theorem Drafted.of_consulted {heap'' : Heap} (hconsulted : Consulted heap heap')
    (h : Drafted draft heap' draft' heap'') : Drafted draft heap draft' heap'' where
  valid := h.valid
  worked := (hconsulted.worked _).trans h.worked
  baseTasks := h.baseTasks
  tasksReset := h.tasksReset
  inside := h.inside
  owned howned := by
    rw [← hconsulted.length]
    exact h.owned howned
  notOwned := h.notOwned
  touched := by
    rw [← hconsulted.rows]
    exact h.touched

/-- A write of the rows of an array that the draft owns. -/
theorem Drafted.onArray {f : TaskArray → TaskArray} (h : Drafted draft heap draft' heap')
    (howned : draft'.tasksOwned = true) (htouched : draft'.touched = draft.touched)
    (hrows : heap'.rows draft'.tasks = heap.rows draft.tasks)
    (hversion : ∀ array, (f array).version = array.version)
    (hf : ∀ array, heap'.arrays[draft'.tasks]? = some array →
      (f array).Valid heap'.slotMaps) (taskId : String)
    (huntouched : ∀ array, heap'.arrays[draft'.tasks]? = some array →
      Untouched [taskId] array.rows (f array).rows) :
    Drafted draft heap { draft' with touched := draft'.touched ++ [taskId] }
      (heap'.onArray draft'.tasks f) where
  valid := h.valid.onArray hf
  worked := h.worked.trans (worked_onArray ⟨howned, rfl⟩ hversion heap')
  baseTasks := h.baseTasks
  tasksReset := h.tasksReset
  inside := by simpa [Heap.onArray] using h.inside
  owned := h.owned
  notOwned := h.notOwned
  touched := by
    refine ⟨[taskId], by rw [htouched], ?_⟩
    obtain ⟨array, harray⟩ : ∃ array, heap'.arrays[draft'.tasks]? = some array :=
      ⟨_, List.getElem?_eq_getElem h.inside⟩
    have hmodified : (heap'.onArray draft'.tasks f).rows draft'.tasks = (f array).rows := by
      simp [Heap.rows, Heap.onArray, harray]
    have hsame : heap'.rows draft'.tasks = array.rows := by simp only [Heap.rows, harray]
    dsimp only
    rw [hmodified, ← hrows, hsame]
    exact huntouched array harray

/-- A lookup after a write. -/
theorem Drafted.consulted {heap'' : Heap} (h : Drafted draft heap draft' heap')
    (hconsulted : Consulted heap' heap'') (hvalid : heap''.Valid) :
    Drafted draft heap draft' heap'' where
  valid := hvalid
  worked := h.worked.trans (hconsulted.worked _)
  baseTasks := h.baseTasks
  tasksReset := h.tasksReset
  inside := by
    rw [hconsulted.length]
    exact h.inside
  owned := h.owned
  notOwned := h.notOwned
  touched := by
    rw [hconsulted.rows]
    exact h.touched

/-- One row of the array of a draft is replaced by another of its task. -/
theorem drafted_modify (h : heap.Valid) (hinside : draft.tasks < heap.arrays.length)
    {taskId : String} {position : Nat}
    (hposition : positionOf (heap.rows draft.tasks) taskId = some position) {f : TaskDto → TaskDto}
    (hf : ∀ task, task.taskId = taskId → (f task).taskId = taskId) :
    Drafted draft heap
      { (draft.writableTasks heap).1 with
        touched := (draft.writableTasks heap).1.touched ++ [taskId] }
      ((draft.writableTasks heap).2.onArray (draft.writableTasks heap).1.tasks fun array ↦
        { array with rows := array.rows.modify position f }) := by
  obtain ⟨hdrafted, howned, htouched, hrows⟩ := writableTasks_spec h hinside
  obtain ⟨row, hrow, htaskId⟩ := row_of_positionOf hposition
  subst htaskId
  have hsame := hf row rfl
  have harray : ∀ array, (draft.writableTasks heap).2.arrays[(draft.writableTasks heap).1.tasks]? =
      some array → array.rows[position]? = some row := by
    intro array harray
    rw [← hrows, Heap.rows, harray] at hrow
    exact hrow
  apply hdrafted.onArray howned htouched hrows
  · intro array
    rfl
  · intro array hmem
    have hvalid := hdrafted.valid array (List.mem_of_getElem? hmem)
    have hids := taskIds_modify (harray array hmem) hsame
    refine ⟨by rw [hids]; exact hvalid.nodup, fun index hindex ↦ ?_⟩
    rw [hids]
    exact hvalid.index index hindex
  · intro array hmem
    exact untouched_modify (harray array hmem) hsame

/-- A row of a new task is appended to the array of a draft. -/
theorem drafted_append (h : heap.Valid) (hinside : draft.tasks < heap.arrays.length)
    {task : TaskDto} (hnew : task.taskId ∉ taskIds (heap.rows draft.tasks)) :
    let written := draft.writableTasks heap
    let appended := written.2.indexAppend written.1.tasks task.taskId
    Drafted draft heap { written.1 with touched := written.1.touched ++ [task.taskId] }
      ((appended.2.setIndex written.1.tasks appended.1).onArray written.1.tasks fun array ↦
        { array with rows := array.rows ++ [task] }) := by
  obtain ⟨hdrafted, howned, htouched, hrows⟩ := writableTasks_spec h hinside
  dsimp only
  revert hdrafted howned htouched hrows
  generalize draft.writableTasks heap = written
  obtain ⟨draft', heap'⟩ := written
  dsimp only
  intro hdrafted howned htouched hrows
  rw [← hrows] at hnew
  obtain ⟨hconsulted, hvalid, slotMap, hslotMap, hindexes⟩ := indexAppend_spec hdrafted.valid _ hnew
  revert hconsulted hvalid hslotMap hindexes
  generalize heap'.indexAppend draft'.tasks task.taskId = appended
  obtain ⟨index, heap''⟩ := appended
  dsimp only
  intro hconsulted hvalid hslotMap hindexes
  have hwrite : (heap''.setIndex draft'.tasks index).onArray draft'.tasks
      (fun array ↦ { array with rows := array.rows ++ [task] }) =
        heap''.onArray draft'.tasks fun array ↦
          { array with rows := array.rows ++ [task], index := some index } := by
    simp [Heap.setIndex, Heap.onArray, List.modify_modify_eq, Function.comp_def]
  rw [hwrite]
  have harray : ∀ array, heap''.arrays[draft'.tasks]? = some array →
      array.rows = heap'.rows draft'.tasks := by
    intro array harray
    rw [← hconsulted.rows, Heap.rows, harray]
  apply (hdrafted.consulted hconsulted hvalid).onArray howned htouched
  · rw [hconsulted.rows, hrows]
  · intro array
    rfl
  · intro array hmem
    have hids : taskIds (array.rows ++ [task]) = taskIds array.rows ++ [task.taskId] :=
      List.map_append
    have hnodup := (hvalid array (List.mem_of_getElem? hmem)).nodup
    have hrowsOf := harray array hmem
    constructor
    · rw [hids, List.nodup_append]
      refine ⟨hnodup, List.nodup_singleton _, fun a ha b hb ↦ ?_⟩
      rw [List.mem_singleton] at hb
      rintro rfl
      rw [hrowsOf, hb] at ha
      exact hnew ha
    · intro index' hindex'
      obtain rfl := Option.some.inj hindex'
      rw [hids, hrowsOf]
      exact ⟨slotMap, hslotMap, hindexes⟩
  · intro array _
    exact untouched_append array.rows task

/-- The positions are those of the tasks that have a row. -/
theorem foundPositions_spec (h : heap.Valid) (tasks : Nat) (ids : List String) :
    (heap.foundPositions tasks ids).1 = ids.filterMap (positionOf (heap.rows tasks)) ∧
      Consulted heap (heap.foundPositions tasks ids).2 ∧
        (heap.foundPositions tasks ids).2.Valid := by
  induction ids generalizing heap with
  | nil => exact ⟨rfl, .refl heap, h⟩
  | cons taskId ids ih =>
    obtain ⟨hfound, hconsulted, hvalid⟩ := findTaskIndex_spec h tasks taskId
    obtain ⟨hpositions, hconsulted', hvalid'⟩ := ih hvalid
    refine ⟨?_, hconsulted.trans hconsulted', hvalid'⟩
    simp only [Heap.foundPositions]
    rw [hpositions, hfound, hconsulted.rows, List.filterMap_cons]
    cases positionOf (heap.rows tasks) taskId with
    | none => rfl
    | some position => rfl

/-- The positions of different tasks, in order. -/
theorem positions_sorted (rows : List TaskDto) {ids : List String} (hnodup : ids.Nodup) :
    (ids.filterMap (positionOf rows)).mergeSort.Pairwise (· < ·) ∧
      ∀ position ∈ (ids.filterMap (positionOf rows)).mergeSort, position < rows.length := by
  have hperm := List.mergeSort_perm (ids.filterMap (positionOf rows)) (fun a b ↦ decide (a ≤ b))
  constructor
  · have hdistinct : (ids.filterMap (positionOf rows)).Nodup := by
      apply hnodup.filterMap
      intro a b position ha hb
      obtain ⟨row, hrow, rfl⟩ := row_of_positionOf ha
      obtain ⟨row', hrow', rfl⟩ := row_of_positionOf hb
      rw [hrow] at hrow'
      rw [Option.some.inj hrow']
    have hsorted : (ids.filterMap (positionOf rows)).mergeSort.Pairwise (· ≤ ·) := by
      simpa using @List.pairwise_mergeSort Nat (fun a b ↦ decide (a ≤ b))
        (by simpa using fun _ _ _ ↦ Nat.le_trans) (by simpa using Nat.le_total)
        (ids.filterMap (positionOf rows))
    apply (hsorted.and (hperm.nodup_iff.mpr hdistinct)).imp
    intro a b hab
    exact Nat.lt_of_le_of_ne hab.1 hab.2
  · intro position hmem
    obtain ⟨taskId, -, hposition⟩ := List.mem_filterMap.mp (hperm.mem_iff.mp hmem)
    obtain ⟨row, hrow, -⟩ := row_of_positionOf hposition
    exact (List.getElem?_eq_some_iff.mp hrow).1

/-- What a patch does to the draft. -/
theorem patchTask_spec (h : heap.Valid) (hinside : draft.tasks < heap.arrays.length)
    (taskId : String) (update : TaskUpdate) :
    Drafted draft heap (draft.patchTask heap taskId update).1
      (draft.patchTask heap taskId update).2 := by
  obtain ⟨hfound, hconsulted, hvalid⟩ := findTaskIndex_spec h draft.tasks taskId
  unfold DaemonDraft.patchTask
  revert hfound hconsulted hvalid
  generalize heap.findTaskIndex draft.tasks taskId = found
  obtain ⟨position, heap'⟩ := found
  dsimp only
  intro hfound hconsulted hvalid
  cases position with
  | none => exact drafted_of_consulted hinside hconsulted hvalid
  | some position =>
    apply Drafted.of_consulted hconsulted
    rw [← hconsulted.rows] at hfound
    apply drafted_modify hvalid (by rwa [hconsulted.length]) hfound.symm
    intro task htask
    rw [update.taskId_apply, htask]

/-- What putting a task in does to the draft. -/
theorem upsertTask_spec (h : heap.Valid) (hinside : draft.tasks < heap.arrays.length)
    (task : TaskDto) :
    Drafted draft heap (draft.upsertTask heap task).1 (draft.upsertTask heap task).2 := by
  obtain ⟨hfound, hconsulted, hvalid⟩ := findTaskIndex_spec h draft.tasks task.taskId
  unfold DaemonDraft.upsertTask
  revert hfound hconsulted hvalid
  generalize heap.findTaskIndex draft.tasks task.taskId = found
  obtain ⟨position, heap'⟩ := found
  dsimp only
  intro hfound hconsulted hvalid
  have hinside' : draft.tasks < heap'.arrays.length := by rwa [hconsulted.length]
  rw [← hconsulted.rows] at hfound
  cases position with
  | none =>
    apply Drafted.of_consulted hconsulted
    exact drafted_append hvalid hinside' (not_mem_of_positionOf hfound.symm)
  | some position =>
    apply Drafted.of_consulted hconsulted
    apply drafted_modify hvalid hinside' hfound.symm
    intro _ _
    rfl

end Drafted

section Removal

variable {slotMap : String → Option Nat} {ids : List String} {index : TaskIndex}
  {positions : List Nat}

/-- The slots of the rows at the positions. -/
theorem Indexes.slots_entriesAt (h : Indexes slotMap ids index) :
    ((entriesAt ids positions).map fun taskId ↦ (slotMap taskId).getD 0) =
      entriesAt (alive index.next index.removed) positions := by
  have hslots : (entriesAt ids positions).map slotMap =
      (entriesAt (alive index.next index.removed) positions).map some := by
    rw [map_entriesAt, map_entriesAt, h.slots]
  have hgetD := congrArg (List.map fun slot : Option Nat ↦ slot.getD 0) hslots
  rw [List.map_map, List.map_map] at hgetD
  simpa [Function.comp_def] using hgetD

/-- The slots of removed rows are marked. -/
theorem Indexes.removeAt (h : Indexes slotMap ids index) (hsorted : positions.Pairwise (· < ·))
    {removed : List Nat} (hremoved :
      removed = mergeSorted index.removed (entriesAt (alive index.next index.removed) positions)) :
    Indexes slotMap (ids.filter fun taskId ↦ taskId ∉ entriesAt ids positions)
      { index with removed } := by
  subst hremoved
  have halive : (alive index.next index.removed).Pairwise (· < ·) :=
    List.pairwise_lt_range.filter _
  have hnodupAlive := nodup_alive index.next index.removed
  have hnodup : ids.Nodup := by
    apply List.Nodup.of_map slotMap
    rw [h.slots]
    exact hnodupAlive.map fun _ _ hsame ↦ Option.some.inj hsame
  have hgone : ∀ slot ∈ entriesAt (alive index.next index.removed) positions,
      slot < index.next ∧ slot ∉ index.removed := by
    intro slot hslot
    obtain ⟨i, -, hi⟩ := mem_entriesAt.mp hslot
    exact mem_alive.mp (List.mem_of_getElem? hi)
  apply @Indexes.remove slotMap ids index h (entriesAt (alive index.next index.removed) positions)
  · intro taskId hmem slot hslot
    obtain ⟨i, hi⟩ := List.mem_iff_getElem?.mp hmem
    obtain ⟨slot', hslot', halive'⟩ := h.slot_of_position hi
    rw [hslot] at hslot'
    obtain rfl := Option.some.inj hslot'
    rw [decide_eq_true_iff, mem_entriesAt_iff hnodup hi, mem_entriesAt_iff hnodupAlive halive']
  · unfold mergeSorted
    split
    · exact pairwise_entriesAt halive hsorted
    · exact pairwise_merge_lt h.sorted (pairwise_entriesAt halive hsorted) fun slot hslot hmem ↦
        (hgone slot hmem).2 hslot
  · intro slot
    unfold mergeSorted
    split
    · next hempty => simp [List.isEmpty_iff.mp hempty]
    · exact List.mem_merge
  · exact fun slot hslot ↦ (hgone slot hslot).1

/-- The rows that stay are copied one way or the other. -/
theorem kept_eq {rows : List TaskDto} (hnodup : (taskIds rows).Nodup)
    (hsorted : positions.Pairwise (· < ·)) (hin : ∀ position ∈ positions, position < rows.length) :
    (if positions.length ≤ spliceLimit then splice positions rows else segments rows 0 positions) =
      rows.filter fun task ↦ task ∉ entriesAt rows positions := by
  have hrows := List.Nodup.of_map TaskDto.taskId hnodup
  split
  · exact splice_eq_filter hrows hsorted hin
  · rw [segments_eq_filter hrows hsorted hin fun _ _ ↦ Nat.zero_le _, List.drop_zero]

/-- What removing tasks does to the draft. -/
theorem removeTasks_spec {draft : DaemonDraft} {heap : Heap} (h : heap.Valid)
    (hinside : draft.tasks < heap.arrays.length) (ids : List String) :
    Drafted draft heap (draft.removeTasks heap ids).1 (draft.removeTasks heap ids).2 := by
  obtain ⟨hconsulted, hvalid, slotMap, hslotMap, hindexes⟩ := taskIndexOf_spec h draft.tasks
  obtain ⟨hsorted, hin⟩ := positions_sorted (heap.rows draft.tasks) (List.nodup_dedup ids)
  unfold DaemonDraft.removeTasks
  dsimp only
  revert hconsulted hvalid hslotMap hindexes
  generalize heap.taskIndexOf draft.tasks = consulted
  obtain ⟨index, heap'⟩ := consulted
  dsimp only
  intro hconsulted hvalid hslotMap hindexes
  obtain ⟨hpositions, hconsulted', hvalid'⟩ := foundPositions_spec hvalid draft.tasks ids.dedup
  rw [hconsulted.rows] at hpositions
  rw [← hpositions] at hsorted hin
  clear hpositions
  revert hconsulted' hvalid' hsorted hin
  generalize heap'.foundPositions draft.tasks ids.dedup = found
  obtain ⟨positions, heap''⟩ := found
  dsimp only
  intro hin hsorted hconsulted' hvalid'
  have hall := hconsulted.trans hconsulted'
  -- lookups of the loop may have built another index, but the one from before is still right
  obtain ⟨slotMap', hslotMap', hentries⟩ := hconsulted'.slotMaps _ _ hslotMap
  have hindexes' := hindexes.mono hentries
  cases positions with
  | nil => exact drafted_of_consulted hinside hall hvalid'
  | cons position positions =>
    dsimp only
    generalize (position :: positions).mergeSort = positions at hsorted hin
    have hnodup := h.nodup_rows draft.tasks
    rw [hall.rows, kept_eq hnodup hsorted hin]
    have hslots : (taskIds (entriesAt (heap.rows draft.tasks) positions)).map
        (fun taskId ↦ (heap''.slotOf index.slots taskId).getD 0) =
          entriesAt (alive index.next index.removed) positions := by
      simp only [Heap.slotOf, hslotMap']
      rw [taskIds, map_entriesAt]
      exact hindexes'.slots_entriesAt
    rw [hslots]
    have hkept := taskIds_filter_entries hnodup positions
    have hids : taskIds (entriesAt (heap.rows draft.tasks) positions) =
        entriesAt (taskIds (heap.rows draft.tasks)) positions := map_entriesAt _
    constructor
    case valid =>
      apply hvalid'.alloc
      constructor
      · rw [hkept]
        exact hnodup.filter _
      · intro index' hindex'
        dsimp only at hindex'
        split at hindex'
        · obtain rfl := Option.some.inj hindex'
          refine ⟨slotMap', hslotMap', ?_⟩
          rw [hkept, hids]
          exact hindexes'.removeAt hsorted rfl
        · cases hindex'
    case worked => exact (hall.worked _).trans (worked_alloc _ _ _ _)
    case baseTasks => rfl
    case tasksReset => rfl
    case inside => simp [Heap.alloc]
    case owned => exact fun _ ↦ .inr (Nat.le_of_eq hall.length.symm)
    case notOwned => exact fun hfalse ↦ Bool.noConfusion hfalse
    case touched =>
      refine ⟨_, rfl, ?_⟩
      dsimp only
      rw [rows_alloc]
      exact untouched_filter_entries _ positions

end Removal

end Web
