import FluxDown.Base.Coalescing
import FluxDown.Protocol.Coalesce
import FluxDown.Protocol.TaskView

/-!
# Events that may be passed

Library `Protocol`. A frame of an entity and a frame that touches neither the entity nor its
task act on different parts of the projection, so they may be taken in either order. The
parts are the task tables, the queue table and the counters; what an event does to the rest
of the projection does not depend on the part, and an event of the part leaves the rest alone.
-/

namespace Protocol

open Base

variable {P : Payloads}

/-- The tasks a touch names. -/
def Touch.taskIds : Touch → List String
  | .tasks taskIds => taskIds
  | .keyed key => key.task.toList
  | .none | .all => []

/-- A frame of the entity may be moved past a frame of this touch. -/
structure Touch.Passes (key : Key) (touch : Touch) : Prop where
  /-- Not everything is touched. -/
  not_all : touch ≠ .all
  /-- It is no frame of the entity. -/
  not_same : touch ≠ .keyed key
  /-- The task of the entity is not touched. -/
  not_task : ∀ task, key.task = some task → task ∉ touch.taskIds

/-! ## The rest of the projection -/

namespace DaemonSnapshot

/-- The projection without the task tables. -/
def exceptTasks (snapshot : DaemonSnapshot P) : DaemonSnapshot P :=
  { snapshot with tasks := [], taskRuntime := SortedMap.empty }

/-- The projection with another queue table. -/
def withQueue (snapshot : DaemonSnapshot P) (positions : List QueuePositionDto)
    (total : Option Nat) : DaemonSnapshot P :=
  { snapshot with queuePositions := positions, queueTotal := total }

/-- The projection with other counters. -/
def withStats (snapshot : DaemonSnapshot P) (stats : DaemonRuntimeStatsDto) : DaemonSnapshot P :=
  { snapshot with runtimeStats := stats }

/-- Projections with the same tables and the same rest are the same. -/
theorem ext_tasks {s t : DaemonSnapshot P} (hrest : s.exceptTasks = t.exceptTasks)
    (htasks : s.tasks = t.tasks) (hruntime : s.taskRuntime = t.taskRuntime) : s = t := by
  cases s
  cases t
  simp only [exceptTasks, DaemonSnapshot.mk.injEq] at hrest htasks hruntime ⊢
  simp only [hrest, htasks, hruntime, and_self]

end DaemonSnapshot

private theorem exceptTasks_tasksChanged (snapshot : DaemonSnapshot P) (tasks : List (TaskDto P)) :
    (tasks.foldl applyTaskChanged snapshot).exceptTasks = snapshot.exceptTasks := by
  induction tasks generalizing snapshot with
  | nil => rfl
  | cons task tasks ih =>
    rw [List.foldl_cons, ih]
    rfl

private theorem exceptTasks_fileMissing (snapshot : DaemonSnapshot P)
    (updates : List FileMissingUpdateDto) :
    (updates.foldl (fun snapshot update ↦ snapshot.updateTask update.taskId update.markTask)
      snapshot).exceptTasks = snapshot.exceptTasks := by
  induction updates generalizing snapshot with
  | nil => rfl
  | cons update updates ih =>
    rw [List.foldl_cons, ih]
    rfl

private theorem exceptTasks_applyEngineMessage (snapshot : DaemonSnapshot P)
    (message : WsServerMsg P) :
    (applyEngineMessage snapshot message).exceptTasks =
      (applyEngineMessage snapshot.exceptTasks message).exceptTasks := by
  cases message with
  | taskProgress progress => simp only [applyEngineMessage]; split <;> rfl
  | segmentProgress taskId totalBytes segments =>
    simp only [applyEngineMessage]; split <;> split <;> rfl
  | fileMissingChanged updates =>
    simp only [applyEngineMessage, exceptTasks_fileMissing]
    rfl
  | _ => rfl

/-- What an event does to the rest of the projection does not depend on the task tables. -/
theorem exceptTasks_applyDaemonEvent (snapshot : DaemonSnapshot P) (event : DaemonEvent P) :
    (applyDaemonEvent snapshot event).exceptTasks =
      (applyDaemonEvent snapshot.exceptTasks event).exceptTasks := by
  cases event with
  | taskRuntimeChanged runtime =>
    simp only [applyDaemonEvent]
    split <;> split <;> rfl
  | tasksChanged tasks =>
    simp only [applyDaemonEvent, exceptTasks_tasksChanged]
    rfl
  | engine message => exact exceptTasks_applyEngineMessage snapshot message
  | _ => rfl

/-! ## The queue table and the counters -/

private theorem applyEngineMessage_withQueue (snapshot : DaemonSnapshot P)
    (message : WsServerMsg P) (hall : engineTouch message ≠ .all)
    (hqueue : engineTouch message ≠ .keyed .queue) (positions : List QueuePositionDto)
    (total : Option Nat) :
    applyEngineMessage (snapshot.withQueue positions total) message =
      (applyEngineMessage snapshot message).withQueue positions total := by
  cases message with
  | tasksSnapshot tasks => exact absurd rfl hall
  | queuePositionsChanged rows => exact absurd rfl hqueue
  | queueOrderChanged removed added => exact absurd rfl hqueue
  | taskProgress progress => simp only [applyEngineMessage]; split <;> rfl
  | segmentProgress taskId totalBytes segments =>
    have htask : (snapshot.withQueue positions total).task taskId = snapshot.task taskId := rfl
    simp only [applyEngineMessage, htask]
    split <;> rfl
  | fileMissingChanged updates =>
    exact List.foldl_hom (fun s : DaemonSnapshot P ↦ s.withQueue positions total) fun _ _ ↦ rfl
  | _ => rfl

/-- An event that leaves the queue table alone does the same beside any queue table. -/
theorem applyDaemonEvent_withQueue (snapshot : DaemonSnapshot P) {event : DaemonEvent P}
    (hall : daemonTouch event ≠ .all) (hqueue : daemonTouch event ≠ .keyed .queue)
    (positions : List QueuePositionDto) (total : Option Nat) :
    applyDaemonEvent (snapshot.withQueue positions total) event =
      (applyDaemonEvent snapshot event).withQueue positions total := by
  cases event with
  | taskRuntimeChanged runtime =>
    have hstatus : acceptedRuntimeStatus (snapshot.withQueue positions total) runtime =
      acceptedRuntimeStatus snapshot runtime := rfl
    simp only [applyDaemonEvent, hstatus]
    split <;> rfl
  | tasksChanged tasks =>
    exact List.foldl_hom (fun s : DaemonSnapshot P ↦ s.withQueue positions total) fun _ _ ↦ rfl
  | engine message => exact applyEngineMessage_withQueue snapshot message hall hqueue positions total
  | snapshotReplaced replacement => exact absurd rfl hall
  | tablesReloading tasks queue =>
    cases tasks with
    | none => exact absurd rfl hqueue
    | some count => exact absurd rfl hall
  | _ => rfl

private theorem applyEngineMessage_withStats (snapshot : DaemonSnapshot P)
    (message : WsServerMsg P) (stats : DaemonRuntimeStatsDto) :
    applyEngineMessage (snapshot.withStats stats) message =
      (applyEngineMessage snapshot message).withStats stats := by
  cases message with
  | taskProgress progress => simp only [applyEngineMessage]; split <;> rfl
  | segmentProgress taskId totalBytes segments =>
    have htask : (snapshot.withStats stats).task taskId = snapshot.task taskId := rfl
    simp only [applyEngineMessage, htask]
    split <;> rfl
  | fileMissingChanged updates =>
    exact List.foldl_hom (fun s : DaemonSnapshot P ↦ s.withStats stats) fun _ _ ↦ rfl
  | _ => rfl

/-- An event that leaves the counters alone does the same beside any counters. -/
theorem applyDaemonEvent_withStats (snapshot : DaemonSnapshot P) {event : DaemonEvent P}
    (hall : daemonTouch event ≠ .all) (hstats : daemonTouch event ≠ .keyed .runtimeStats)
    (stats : DaemonRuntimeStatsDto) :
    applyDaemonEvent (snapshot.withStats stats) event =
      (applyDaemonEvent snapshot event).withStats stats := by
  cases event with
  | taskRuntimeChanged runtime =>
    have hstatus : acceptedRuntimeStatus (snapshot.withStats stats) runtime =
      acceptedRuntimeStatus snapshot runtime := rfl
    simp only [applyDaemonEvent, hstatus]
    split <;> rfl
  | tasksChanged tasks =>
    exact List.foldl_hom (fun s : DaemonSnapshot P ↦ s.withStats stats) fun _ _ ↦ rfl
  | engine message => exact applyEngineMessage_withStats snapshot message stats
  | snapshotReplaced replacement => exact absurd rfl hall
  | runtimeStatsChanged stats => exact absurd rfl hstats
  | _ => rfl

/-! ## Task rows -/

/-- The task rows after a message of the engine. -/
def engineRows (rows : List (TaskDto P)) : WsServerMsg P → List (TaskDto P)
  | .tasksSnapshot tasks => tasks
  | .taskProgress progress =>
    if progress.deleted then rows.filter fun row ↦ row.taskId ∉ [progress.taskId]
    else modifyRow TaskDto.taskId progress.taskId progress.update rows
  | .taskMetaProbed taskId fileName totalBytes =>
    modifyRow TaskDto.taskId taskId (probedTask fileName totalBytes) rows
  | .taskQueueChanged taskId queueId =>
    modifyRow TaskDto.taskId taskId (fun task ↦ { task with queueId := queueId }) rows
  | .taskRouteChanged taskId route =>
    modifyRow TaskDto.taskId taskId (fun task ↦ { task with autoRoute := route }) rows
  | .fileMissingChanged updates =>
    updates.foldl (fun rows update ↦
      modifyRow TaskDto.taskId update.taskId update.markTask rows) rows
  | _ => rows

/-- The task rows after an event of the daemon. -/
def rowsAfter (rows : List (TaskDto P)) : DaemonEvent P → List (TaskDto P)
  | .snapshotReplaced replacement => replacement.tasks
  | .tablesReloading tasks _ => if tasks.isSome then [] else rows
  | .engine message => engineRows rows message
  | .taskChanged task => upsertRow TaskDto.taskId task rows
  | .tasksChanged tasks => tasks.foldl (fun rows task ↦ upsertRow TaskDto.taskId task rows) rows
  | .taskDeleted taskId => rows.filter fun row ↦ row.taskId ∉ [taskId]
  | .tasksDeleted taskIds => rows.filter fun row ↦ row.taskId ∉ taskIds
  | _ => rows

/-- The rows after an event. -/
theorem tasks_applyDaemonEvent (snapshot : DaemonSnapshot P) (event : DaemonEvent P) :
    (applyDaemonEvent snapshot event).tasks = rowsAfter snapshot.tasks event := by
  cases event with
  | taskRuntimeChanged runtime => simp only [applyDaemonEvent, rowsAfter]; split <;> rfl
  | tasksChanged tasks => exact (List.foldl_hom DaemonSnapshot.tasks fun _ _ ↦ rfl).symm
  | engine message =>
    cases message with
    | taskProgress progress =>
      simp only [applyDaemonEvent, applyEngineMessage, rowsAfter, engineRows]
      split <;> rfl
    | segmentProgress taskId totalBytes segments =>
      simp only [applyDaemonEvent, applyEngineMessage, rowsAfter, engineRows]
      split <;> rfl
    | fileMissingChanged updates => exact (List.foldl_hom DaemonSnapshot.tasks fun _ _ ↦ rfl).symm
    | _ => rfl
  | _ => rfl

private theorem engineRows_modifyRow {message : WsServerMsg P} (hall : engineTouch message ≠ .all)
    {id : String} (hid : id ∉ (engineTouch message).taskIds) {f : TaskDto P → TaskDto P}
    (hf : KeepsKey TaskDto.taskId id f) (rows : List (TaskDto P)) :
    engineRows (modifyRow TaskDto.taskId id f rows) message =
      modifyRow TaskDto.taskId id f (engineRows rows message) := by
  cases message with
  | tasksSnapshot tasks => exact absurd rfl hall
  | taskProgress progress =>
    have hne : id ≠ progress.taskId := by
      intro heq
      subst heq
      simp only [engineTouch] at hid
      split at hid <;> simp [Touch.taskIds, Key.task] at hid
    simp only [engineRows]
    split
    · exact (modifyRow_filter hf (by simpa using hne) rows).symm
    · exact (modifyRow_comm (g := progress.update) hf (fun _ h ↦ h) hne rows).symm
  | taskMetaProbed taskId fileName totalBytes =>
    have hne : id ≠ taskId := by simpa [engineTouch, Touch.taskIds] using hid
    exact (modifyRow_comm (g := probedTask fileName totalBytes) hf (fun _ h ↦ h) hne rows).symm
  | taskQueueChanged taskId queueId =>
    have hne : id ≠ taskId := by simpa [engineTouch, Touch.taskIds] using hid
    exact (modifyRow_comm (g := fun task ↦ { task with queueId := queueId }) hf (fun _ h ↦ h) hne
      rows).symm
  | taskRouteChanged taskId route =>
    have hne : id ≠ taskId := by simpa [engineTouch, Touch.taskIds] using hid
    exact (modifyRow_comm (g := fun task ↦ { task with autoRoute := route }) hf (fun _ h ↦ h) hne
      rows).symm
  | fileMissingChanged updates =>
    simp only [engineTouch, Touch.taskIds] at hid
    simp only [engineRows]
    clear hall
    induction updates generalizing rows with
    | nil => rfl
    | cons update updates ih =>
      rw [List.map_cons, List.mem_cons, not_or] at hid
      have hkeep : KeepsKey TaskDto.taskId update.taskId (update.markTask (P := P)) := fun _ h ↦ h
      have hcomm := modifyRow_comm hf hkeep hid.1 rows
      rw [List.foldl_cons, List.foldl_cons, ← hcomm, ih _ hid.2]
  | _ => rfl

/-- An update of a row the event does not touch may come before the event or after it. -/
theorem rowsAfter_modifyRow {event : DaemonEvent P} (hall : daemonTouch event ≠ .all) {id : String}
    (hid : id ∉ (daemonTouch event).taskIds) {f : TaskDto P → TaskDto P}
    (hf : KeepsKey TaskDto.taskId id f) (rows : List (TaskDto P)) :
    rowsAfter (modifyRow TaskDto.taskId id f rows) event =
      modifyRow TaskDto.taskId id f (rowsAfter rows event) := by
  cases event with
  | snapshotReplaced replacement => exact absurd rfl hall
  | tablesReloading tasks queue =>
    cases tasks with
    | none => rfl
    | some count => exact absurd rfl hall
  | engine message => exact engineRows_modifyRow hall hid hf rows
  | taskChanged task =>
    have hne : task.taskId ≠ id := by
      intro heq
      simp [daemonTouch, Touch.taskIds, heq] at hid
    exact (modifyRow_upsertRow hf hne rows).symm
  | tasksChanged tasks =>
    simp only [daemonTouch, Touch.taskIds] at hid
    simp only [rowsAfter]
    clear hall
    induction tasks generalizing rows with
    | nil => rfl
    | cons task tasks ih =>
      rw [List.map_cons, List.mem_cons, not_or] at hid
      rw [List.foldl_cons, List.foldl_cons, ← modifyRow_upsertRow hf (Ne.symm hid.1), ih _ hid.2]
  | taskDeleted taskId => exact (modifyRow_filter hf hid rows).symm
  | tasksDeleted taskIds => exact (modifyRow_filter hf hid rows).symm
  | _ => rfl

/-! ## Views of other tasks -/

private theorem foldl_untouched {α : Type*} {view : TaskView P} {id : String} {key : α → String}
    {f : α → TaskView P → TaskView P} {items : List α} (hid : id ∉ items.map key) :
    items.foldl (fun view item ↦ if id = key item then f item view else view) view = view := by
  induction items with
  | nil => rfl
  | cons item items ih =>
    rw [List.map_cons, List.mem_cons, not_or] at hid
    rw [List.foldl_cons, if_neg hid.1, ih hid.2]

/-- An event leaves the view of a task alone that it does not touch. -/
theorem effect_untouched {event : DaemonEvent P} (hall : daemonTouch event ≠ .all) {id : String}
    (hid : id ∉ (daemonTouch event).taskIds) (view : TaskView P) : view.effect id event = view := by
  cases event with
  | taskRuntimeChanged runtime => exact if_neg (by simpa [daemonTouch, Touch.taskIds, Key.task] using hid)
  | snapshotReplaced replacement => exact absurd rfl hall
  | tablesReloading tasks queue =>
    cases tasks with
    | none => rfl
    | some count => exact absurd rfl hall
  | engine message =>
    cases message with
    | tasksSnapshot tasks => exact absurd rfl hall
    | taskProgress progress =>
      apply if_neg
      intro heq
      simp only [daemonTouch, engineTouch] at hid
      split at hid <;> simp [Touch.taskIds, Key.task, heq] at hid
    | segmentProgress taskId totalBytes segments =>
      exact if_neg (by simpa [daemonTouch, engineTouch, Touch.taskIds, Key.task] using hid)
    | taskMetaProbed taskId fileName totalBytes =>
      exact if_neg (by simpa [daemonTouch, engineTouch, Touch.taskIds] using hid)
    | taskQueueChanged taskId queueId =>
      exact if_neg (by simpa [daemonTouch, engineTouch, Touch.taskIds] using hid)
    | taskRouteChanged taskId route =>
      exact if_neg (by simpa [daemonTouch, engineTouch, Touch.taskIds] using hid)
    | fileMissingChanged updates => exact foldl_untouched hid
    | _ => rfl
  | taskChanged task => exact if_neg (by simpa [daemonTouch, Touch.taskIds] using hid)
  | tasksChanged tasks => exact foldl_untouched hid
  | taskDeleted taskId => exact if_neg (by simpa [daemonTouch, Touch.taskIds] using hid)
  | tasksDeleted taskIds => exact if_neg (by simpa [daemonTouch, Touch.taskIds] using hid)
  | _ => rfl

/-! ## Events that commute -/

/-- How the frames of a task's entity act: the row is rewritten in place, the readings change,
the rest of the projection does not. -/
theorem keyed_task_cases {event : DaemonEvent P} {key : Key} {id : String}
    (hkey : daemonTouch event = .keyed key) (htask : key.task = some id) :
    (∃ f : TaskDto P → TaskDto P, KeepsKey TaskDto.taskId id f ∧
      ∀ rows, rowsAfter rows event = modifyRow TaskDto.taskId id f rows) ∧
    ∀ snapshot : DaemonSnapshot P,
      (applyDaemonEvent snapshot event).exceptTasks = snapshot.exceptTasks := by
  cases event with
  | taskRuntimeChanged runtime =>
    refine ⟨⟨fun row ↦ row, fun _ h ↦ h, fun rows ↦ (modifyRow_self id rows).symm⟩, fun snapshot ↦ ?_⟩
    simp only [applyDaemonEvent]
    split <;> rfl
  | runtimeStatsChanged stats =>
    rw [daemonTouch, Touch.keyed.injEq] at hkey
    subst hkey
    cases htask
  | tablesReloading tasks queue =>
    cases tasks with
    | none =>
      rw [daemonTouch, Touch.keyed.injEq] at hkey
      subst hkey
      cases htask
    | some count => cases hkey
  | engine message =>
    cases message with
    | taskProgress progress =>
      rw [daemonTouch, engineTouch] at hkey
      split at hkey
      · cases hkey
      · next hlive =>
        rw [Touch.keyed.injEq] at hkey
        subst hkey
        rw [Key.task, Option.some.injEq] at htask
        subst htask
        refine ⟨⟨progress.update, fun _ h ↦ h, fun rows ↦ ?_⟩, fun snapshot ↦ ?_⟩
        · rw [rowsAfter, engineRows, if_neg hlive]
        · rw [applyDaemonEvent, applyEngineMessage, if_neg hlive]
          rfl
    | segmentProgress taskId totalBytes segments =>
      refine ⟨⟨fun row ↦ row, fun _ h ↦ h, fun rows ↦ (modifyRow_self id rows).symm⟩,
        fun snapshot ↦ ?_⟩
      simp only [applyDaemonEvent, applyEngineMessage]
      split <;> rfl
    | queuePositionsChanged positions =>
      rw [daemonTouch, engineTouch, Touch.keyed.injEq] at hkey
      subst hkey
      cases htask
    | queueOrderChanged removed added =>
      rw [daemonTouch, engineTouch, Touch.keyed.injEq] at hkey
      subst hkey
      cases htask
    | _ => cases hkey
  | _ => cases hkey

/-- An event of a task's entity may be passed by an event that leaves the task alone. -/
theorem comm_of_task {event other : DaemonEvent P} {key : Key} {id : String}
    (hkey : daemonTouch event = .keyed key) (htask : key.task = some id)
    (hpasses : (daemonTouch other).Passes key) (snapshot : DaemonSnapshot P) :
    applyDaemonEvent (applyDaemonEvent snapshot event) other =
      applyDaemonEvent (applyDaemonEvent snapshot other) event := by
  obtain ⟨⟨f, hf, hrows⟩, hrest⟩ := keyed_task_cases hkey htask
  have hother : id ∉ (daemonTouch other).taskIds := hpasses.not_task id htask
  apply DaemonSnapshot.ext_tasks
  · rw [exceptTasks_applyDaemonEvent, hrest, ← exceptTasks_applyDaemonEvent, hrest]
  · simp only [tasks_applyDaemonEvent, hrows]
    exact rowsAfter_modifyRow hpasses.not_all hother hf snapshot.tasks
  · apply SortedMap.ext_get?
    intro taskId
    have hviews : (applyDaemonEvent (applyDaemonEvent snapshot event) other).view taskId =
        (applyDaemonEvent (applyDaemonEvent snapshot other) event).view taskId := by
      simp only [view_applyDaemonEvent]
      by_cases hid : taskId = id
      · rw [hid, effect_untouched hpasses.not_all hother, effect_untouched hpasses.not_all hother]
      · have hevent : taskId ∉ (daemonTouch event).taskIds := by
          rw [hkey, Touch.taskIds, htask]
          simpa using hid
        have hall : daemonTouch event ≠ .all := by
          rw [hkey]
          exact Touch.noConfusion
        rw [effect_untouched hall hevent, effect_untouched hall hevent]
    exact congrArg TaskView.runtime hviews

/-- An event that leaves the queue table alone. -/
theorem queue_applyDaemonEvent {event : DaemonEvent P} (hall : daemonTouch event ≠ .all)
    (hqueue : daemonTouch event ≠ .keyed .queue) (snapshot : DaemonSnapshot P) :
    (applyDaemonEvent snapshot event).queuePositions = snapshot.queuePositions ∧
      (applyDaemonEvent snapshot event).queueTotal = snapshot.queueTotal := by
  have hside : applyDaemonEvent snapshot event = (applyDaemonEvent snapshot event).withQueue
      snapshot.queuePositions snapshot.queueTotal :=
    applyDaemonEvent_withQueue snapshot hall hqueue snapshot.queuePositions snapshot.queueTotal
  constructor <;> rw [hside] <;> rfl

/-- What an event of the queue table does to it. -/
theorem keyed_queue_cases {event : DaemonEvent P}
    (hkey : daemonTouch event = .keyed .queue) :
    ∃ f : List QueuePositionDto → Option Nat → List QueuePositionDto × Option Nat,
      ∀ snapshot : DaemonSnapshot P, applyDaemonEvent snapshot event =
        snapshot.withQueue (f snapshot.queuePositions snapshot.queueTotal).1
          (f snapshot.queuePositions snapshot.queueTotal).2 := by
  cases event with
  | tablesReloading tasks queue =>
    cases tasks with
    | none =>
      exact ⟨fun positions total ↦ (if queue.isSome then [] else positions, queue.or total),
        fun _ ↦ rfl⟩
    | some count => cases hkey
  | engine message =>
    cases message with
    | queuePositionsChanged positions => exact ⟨fun _ _ ↦ (positions, none), fun _ ↦ rfl⟩
    | queueOrderChanged removed added =>
      exact ⟨fun positions total ↦ (applyQueueOrder positions removed added, total), fun _ ↦ rfl⟩
    | taskProgress progress =>
      rw [daemonTouch, engineTouch] at hkey
      split at hkey <;> cases hkey
    | _ => cases hkey
  | _ => cases hkey

private theorem comm_of_queue {event other : DaemonEvent P}
    (hkey : daemonTouch event = .keyed .queue) (hpasses : (daemonTouch other).Passes .queue)
    (snapshot : DaemonSnapshot P) :
    applyDaemonEvent (applyDaemonEvent snapshot event) other =
      applyDaemonEvent (applyDaemonEvent snapshot other) event := by
  obtain ⟨f, hf⟩ := keyed_queue_cases hkey
  have hkept := queue_applyDaemonEvent hpasses.not_all hpasses.not_same snapshot
  rw [hf, hf, hkept.1, hkept.2, applyDaemonEvent_withQueue _ hpasses.not_all hpasses.not_same]

private theorem comm_of_stats {event other : DaemonEvent P}
    (hkey : daemonTouch event = .keyed .runtimeStats)
    (hpasses : (daemonTouch other).Passes .runtimeStats) (snapshot : DaemonSnapshot P) :
    applyDaemonEvent (applyDaemonEvent snapshot event) other =
      applyDaemonEvent (applyDaemonEvent snapshot other) event := by
  cases event with
  | runtimeStatsChanged stats =>
    exact applyDaemonEvent_withStats snapshot hpasses.not_all hpasses.not_same stats
  | tablesReloading tasks queue => cases tasks <;> cases hkey
  | engine message =>
    cases message with
    | taskProgress progress =>
      rw [daemonTouch, engineTouch] at hkey
      split at hkey <;> cases hkey
    | _ => cases hkey
  | _ => cases hkey

/-- No event of the daemon is a frame of a share session. -/
theorem daemonTouch_ne_share (event : DaemonEvent P) (session : String) :
    daemonTouch event ≠ .keyed (.shareSession session) := by
  intro hkey
  cases event with
  | tablesReloading tasks queue => cases tasks <;> cases hkey
  | engine message =>
    cases message with
    | taskProgress progress =>
      rw [daemonTouch, engineTouch] at hkey
      split at hkey <;> cases hkey
    | _ => cases hkey
  | _ => cases hkey

/-- An event of an entity may be passed by an event that leaves the entity alone. -/
theorem applyDaemonEvent_comm {event other : DaemonEvent P} {key : Key}
    (hkey : daemonTouch event = .keyed key) (hpasses : (daemonTouch other).Passes key)
    (snapshot : DaemonSnapshot P) :
    applyDaemonEvent (applyDaemonEvent snapshot event) other =
      applyDaemonEvent (applyDaemonEvent snapshot other) event := by
  cases key with
  | progress task => exact comm_of_task hkey rfl hpasses snapshot
  | runtime task => exact comm_of_task hkey rfl hpasses snapshot
  | segments task => exact comm_of_task hkey rfl hpasses snapshot
  | runtimeStats => exact comm_of_stats hkey hpasses snapshot
  | shareSession session => exact absurd hkey (daemonTouch_ne_share event session)
  | queue => exact comm_of_queue hkey hpasses snapshot

/-! ## Service events -/

private theorem refresh_comm {progress other : ShareProgressDto P}
    (hne : progress.sessionId ≠ other.sessionId) (receiver : ShareReceiverDto P) :
    other.refresh (progress.refresh receiver) = progress.refresh (other.refresh receiver) := by
  unfold ShareProgressDto.refresh
  by_cases h : receiver.sessionId = progress.sessionId
  · simp [h, hne]
  · by_cases h' : receiver.sessionId = other.sessionId <;> simp [h, h', Ne.symm hne]

private theorem refreshFacts_comm {progress other : ShareProgressDto P}
    (hne : progress.sessionId ≠ other.sessionId) (facts : ShareTaskFactsDto P) :
    other.refreshFacts (progress.refreshFacts facts) =
      progress.refreshFacts (other.refreshFacts facts) := by
  unfold ShareProgressDto.refreshFacts
  by_cases h : facts.sessionId = some progress.sessionId
  · simp [h, hne]
  · by_cases h' : facts.sessionId = some other.sessionId <;> simp [h, h', Ne.symm hne]

/-- Progress of different sessions commutes. -/
theorem applyProgress_comm {progress other : ShareProgressDto P}
    (hne : progress.sessionId ≠ other.sessionId) (state : ShareStateDto P) :
    (state.applyProgress progress).applyProgress other =
      (state.applyProgress other).applyProgress progress := by
  unfold ShareStateDto.applyProgress
  congr 1
  · simp only [List.map_map]
    apply List.map_congr_left
    intro share _
    simp only [Function.comp_apply, List.map_map]
    congr 1
    apply List.map_congr_left
    intro receiver _
    exact refresh_comm hne receiver
  · apply SortedMap.ext_get?
    intro task
    simp only [SortedMap.get?_mapValues, Option.map_map]
    congr 1
    funext facts
    exact refreshFacts_comm hne facts

private theorem pass_daemon {event : DaemonEvent P} {other : ServiceEvent P} {key : Key}
    (hkey : daemonTouch event = .keyed key) (hpasses : (touch other).Passes key)
    (snapshot : AgentSnapshot P) :
    applyServiceEvent { snapshot with daemon := applyDaemonEvent snapshot.daemon event } other =
      let after := applyServiceEvent snapshot other
      { after with daemon := applyDaemonEvent after.daemon event } := by
  cases other with
  | daemon e =>
    exact congrArg (fun daemon ↦ { snapshot with daemon := daemon })
      (applyDaemonEvent_comm hkey hpasses snapshot.daemon)
  | agent e =>
    cases e with
    | daemon e =>
      exact congrArg (fun daemon ↦ { snapshot with daemon := daemon })
        (applyDaemonEvent_comm hkey hpasses snapshot.daemon)
    | daemonSnapshotReplaced replacement => exact absurd rfl hpasses.not_all
    | daemonConnectionChanged connected => exact absurd rfl hpasses.not_all
    | sessionChanged session => cases session <;> rfl
    | _ => rfl

/-- A service event of an entity may be passed by one that leaves the entity alone, but that a
new state of all shares makes progress of a session meaningless. -/
theorem applyServiceEvent_pass {event other : ServiceEvent P} {key : Key}
    (hkey : touch event = .keyed key) (hpasses : (touch other).Passes key)
    (snapshot : AgentSnapshot P) :
    applyServiceEvent (applyServiceEvent snapshot event) other =
        applyServiceEvent (applyServiceEvent snapshot other) event ∨
      (∃ progress, event = .agent (.shareProgress progress)) ∧
        applyServiceEvent (applyServiceEvent snapshot event) other =
          applyServiceEvent snapshot other := by
  cases event with
  | daemon e => exact .inl (pass_daemon hkey hpasses snapshot)
  | agent e =>
    cases e with
    | daemon e => exact .inl (pass_daemon hkey hpasses snapshot)
    | shareProgress progress =>
      rw [touch, Touch.keyed.injEq] at hkey
      subst hkey
      cases other with
      | daemon e => exact .inl rfl
      | agent e =>
        cases e with
        | shareChanged state => exact .inr ⟨⟨progress, rfl⟩, rfl⟩
        | shareProgress other =>
          have hne : progress.sessionId ≠ other.sessionId := by
            intro heq
            exact hpasses.not_same (by rw [touch, heq])
          exact .inl (congrArg _ (applyProgress_comm hne snapshot.share))
        | sessionChanged session => cases session <;> exact .inl rfl
        | _ => exact .inl rfl
    | _ => cases hkey

end Protocol
