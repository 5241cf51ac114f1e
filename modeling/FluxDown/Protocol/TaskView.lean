import FluxDown.Protocol.Event

/-!
# What an event does to one task

Library `Protocol`. The view of a task is its row and its runtime entry. Every event of the
daemon acts on the view of each task alone: the view after the event is a function of the
event and the view before it. Statements about all tasks follow task by task.
-/

namespace Protocol

open Base

variable {P : Payloads}

/-- The row of a task and its runtime entry. -/
structure TaskView (P : Payloads) where
  /-- The row, none where the task is unknown. -/
  row : Option (TaskDto P)
  /-- The readings. -/
  runtime : Option (TaskRuntimeDto P)

/-- The view of a task. -/
def DaemonSnapshot.view (snapshot : DaemonSnapshot P) (id : String) : TaskView P :=
  ⟨snapshot.task id, snapshot.taskRuntime.get? id⟩

/-- The entry that stays of a task of the status. -/
def settled (status : Int) (runtime : Option (TaskRuntimeDto P)) : Option (TaskRuntimeDto P) :=
  if !runtimeRetained status then none
  else if inactive status then runtime.map zeroRuntimeActivity
  else runtime

namespace TaskView

/-- The status under which readings are taken. -/
def retainedStatus (view : TaskView P) : Option Int :=
  (view.row.map TaskDto.status).filter runtimeRetained

/-- The sample is older than the one shown. -/
def stale (view : TaskView P) (runtime : TaskRuntimeDto P) : Bool :=
  view.runtime.any fun previous ↦
    previous.sampleSequence != 0 && decide (runtime.sampleSequence ≤ previous.sampleSequence)

/-- The status under which a sample is taken. -/
def acceptedStatus (view : TaskView P) (runtime : TaskRuntimeDto P) : Option Int :=
  if view.stale runtime then none else view.retainedStatus

/-- A sample of the task. -/
def sampled (runtime : TaskRuntimeDto P) (view : TaskView P) : TaskView P :=
  match view.acceptedStatus runtime with
  | none => view
  | some status => { view with runtime := some (sampledRuntime view.runtime status runtime) }

/-- A new row of the task. -/
def changed (task : TaskDto P) (view : TaskView P) : TaskView P :=
  ⟨some task, settled task.status view.runtime⟩

/-- Progress of the task. -/
def progressed (progress : TaskProgress) (view : TaskView P) : TaskView P :=
  if progress.deleted then ⟨none, none⟩
  else ⟨view.row.map progress.update, settled progress.status view.runtime⟩

/-- Stored segments of the task. -/
def stored (taskId : String) (totalBytes : Int) (segments : List SegmentDetailDto)
    (view : TaskView P) : TaskView P :=
  match view.retainedStatus with
  | none => view
  | some status =>
    let runtime := view.runtime.getD (blankRuntime taskId status)
    { view with runtime := some (storedRuntime status totalBytes segments runtime) }

/-- The row of the task, if any, is rewritten. -/
def rewritten (f : TaskDto P → TaskDto P) (view : TaskView P) : TaskView P :=
  { view with row := view.row.map f }

/-- The whole table is replaced by one that has this row of the task. -/
def reloaded (row : Option (TaskDto P)) (view : TaskView P) : TaskView P :=
  ⟨row, row.bind fun task ↦ settled task.status view.runtime⟩

/-- What a message of the engine does to the view of a task. -/
def engineEffect (view : TaskView P) (id : String) : WsServerMsg P → TaskView P
  | .tasksSnapshot tasks => view.reloaded (lastRow? TaskDto.taskId id tasks)
  | .taskProgress progress => if id = progress.taskId then view.progressed progress else view
  | .segmentProgress taskId totalBytes segments =>
    if id = taskId then view.stored taskId totalBytes segments else view
  | .taskMetaProbed taskId fileName totalBytes =>
    if id = taskId then view.rewritten (probedTask fileName totalBytes) else view
  | .taskQueueChanged taskId queueId =>
    if id = taskId then view.rewritten fun task ↦ { task with queueId := queueId } else view
  | .taskRouteChanged taskId route =>
    if id = taskId then view.rewritten fun task ↦ { task with autoRoute := route } else view
  | .fileMissingChanged updates =>
    updates.foldl (fun view update ↦
      if id = update.taskId then view.rewritten update.markTask else view) view
  | _ => view

/-- What an event of the daemon does to the view of a task. -/
def effect (view : TaskView P) (id : String) : DaemonEvent P → TaskView P
  | .taskRuntimeChanged runtime => if id = runtime.taskId then view.sampled runtime else view
  | .snapshotReplaced replacement => replacement.view id
  | .tablesReloading tasks _ => if tasks.isSome then { view with row := none } else view
  | .engine message => view.engineEffect id message
  | .taskChanged task => if id = task.taskId then view.changed task else view
  | .tasksChanged tasks =>
    tasks.foldl (fun view task ↦ if id = task.taskId then view.changed task else view) view
  | .taskDeleted taskId => if id = taskId then ⟨none, none⟩ else view
  | .tasksDeleted taskIds => if id ∈ taskIds then ⟨none, none⟩ else view
  | _ => view

end TaskView

/-! ## The view after an event -/

/-- The readings of one task are settled. -/
@[simp] theorem get?_settleRuntime (taskRuntime : SortedMap String (TaskRuntimeDto P))
    (taskId id : String) (status : Int) :
    (settleRuntime taskRuntime taskId status).get? id =
      if id = taskId then settled status (taskRuntime.get? id) else taskRuntime.get? id := by
  unfold settleRuntime settled
  split
  · rw [SortedMap.get?_erase]
  · split
    · rw [SortedMap.get?_modify]
    · rw [ite_self]

private theorem view_updateTask (snapshot : DaemonSnapshot P) {taskId : String}
    {f : TaskDto P → TaskDto P} (hf : KeepsKey TaskDto.taskId taskId f) (id : String) :
    (snapshot.updateTask taskId f).view id =
      if id = taskId then (snapshot.view id).rewritten f else snapshot.view id := by
  unfold DaemonSnapshot.view DaemonSnapshot.updateTask DaemonSnapshot.task
  rw [lastRow?_modifyRow hf]
  split <;> rfl

private theorem view_settleTaskTable (snapshot : DaemonSnapshot P) (id : String) :
    snapshot.settleTaskTable.view id = (snapshot.view id).reloaded (snapshot.task id) := by
  unfold DaemonSnapshot.settleTaskTable DaemonSnapshot.view
  rw [SortedMap.get?_mapValues, SortedMap.get?_filter]
  unfold TaskView.reloaded
  congr 1
  cases snapshot.taskRuntime.get? id with
  | none => cases snapshot.task id <;> simp [settled]
  | some runtime =>
    cases snapshot.task id with
    | none => rfl
    | some task =>
      cases hretained : runtimeRetained task.status with
      | false => simp [settled, hretained]
      | true => cases hinactive : inactive task.status <;> simp [settled, hretained, hinactive]

private theorem view_applyTaskChanged (snapshot : DaemonSnapshot P) (task : TaskDto P)
    (id : String) :
    (applyTaskChanged snapshot task).view id =
      if id = task.taskId then (snapshot.view id).changed task else snapshot.view id := by
  unfold DaemonSnapshot.view applyTaskChanged DaemonSnapshot.task
  rw [lastRow?_upsertRow, get?_settleRuntime]
  split <;> rfl

private theorem view_removeTasks (snapshot : DaemonSnapshot P) (taskIds : List String)
    (id : String) :
    (snapshot.removeTasks taskIds).view id =
      if id ∈ taskIds then ⟨none, none⟩ else snapshot.view id := by
  unfold DaemonSnapshot.view DaemonSnapshot.removeTasks DaemonSnapshot.task
  rw [lastRow?_filter, SortedMap.get?_filter]
  split
  · next h => simp [h]
  · next h => cases hget : snapshot.taskRuntime.get? id <;> simp [h]

private theorem view_removeTask (snapshot : DaemonSnapshot P) (taskId id : String) :
    ({ snapshot.removeTask taskId with
      taskRuntime := snapshot.taskRuntime.erase taskId }).view id =
      if id = taskId then ⟨none, none⟩ else snapshot.view id := by
  unfold DaemonSnapshot.view DaemonSnapshot.removeTask DaemonSnapshot.task
  rw [lastRow?_filter, SortedMap.get?_erase]
  by_cases h : id = taskId <;> simp [h]

/-- What a message of the engine does to the view of a task. -/
theorem view_applyEngineMessage (snapshot : DaemonSnapshot P) (message : WsServerMsg P)
    (id : String) :
    (applyEngineMessage snapshot message).view id =
      (snapshot.view id).engineEffect id message := by
  cases message with
  | tasksSnapshot tasks => exact view_settleTaskTable _ id
  | taskProgress progress =>
    simp only [applyEngineMessage, TaskView.engineEffect, TaskView.progressed]
    split
    · next h =>
      exact view_removeTask snapshot progress.taskId id
    · have hkeep : KeepsKey TaskDto.taskId progress.taskId (progress.update (P := P)) :=
        fun _ h ↦ h
      rw [view_updateTask _ hkeep]
      simp only [DaemonSnapshot.view, get?_settleRuntime]
      split <;> rfl
  | segmentProgress taskId totalBytes segments =>
    simp only [applyEngineMessage, TaskView.engineEffect]
    have hstatus : ((snapshot.task taskId).map TaskDto.status).filter runtimeRetained =
        (snapshot.view taskId).retainedStatus := rfl
    rw [hstatus]
    by_cases hid : id = taskId
    · subst hid
      rw [if_pos rfl, TaskView.stored]
      cases (snapshot.view id).retainedStatus with
      | none => rfl
      | some status => simp [DaemonSnapshot.view, DaemonSnapshot.task]
    · rw [if_neg hid]
      cases (snapshot.view taskId).retainedStatus with
      | none => rfl
      | some status => simp [DaemonSnapshot.view, DaemonSnapshot.task, hid]
  | fileMissingChanged updates =>
    simp only [applyEngineMessage, TaskView.engineEffect]
    induction updates generalizing snapshot with
    | nil => rfl
    | cons update updates ih =>
      have hkeep : KeepsKey TaskDto.taskId update.taskId (update.markTask (P := P)) := fun _ h ↦ h
      rw [List.foldl_cons, List.foldl_cons, ih, view_updateTask _ hkeep]
  | taskMetaProbed taskId fileName totalBytes =>
    exact view_updateTask snapshot (f := probedTask fileName totalBytes) (fun _ h ↦ h) id
  | taskQueueChanged taskId queueId =>
    exact view_updateTask snapshot (f := fun task ↦ { task with queueId := queueId })
      (fun _ h ↦ h) id
  | taskRouteChanged taskId route =>
    exact view_updateTask snapshot (f := fun task ↦ { task with autoRoute := route })
      (fun _ h ↦ h) id
  | _ => rfl

/-- The view of a task after an event is the effect of the event on the view before it. -/
theorem view_applyDaemonEvent (snapshot : DaemonSnapshot P) (event : DaemonEvent P)
    (id : String) :
    (applyDaemonEvent snapshot event).view id = (snapshot.view id).effect id event := by
  cases event with
  | taskRuntimeChanged runtime =>
    simp only [applyDaemonEvent, TaskView.effect]
    have hstatus : acceptedRuntimeStatus snapshot runtime =
        (snapshot.view runtime.taskId).acceptedStatus runtime := rfl
    rw [hstatus]
    by_cases hid : id = runtime.taskId
    · subst hid
      rw [if_pos rfl, TaskView.sampled]
      cases (snapshot.view runtime.taskId).acceptedStatus runtime with
      | none => rfl
      | some status => simp [DaemonSnapshot.view, DaemonSnapshot.task]
    · rw [if_neg hid]
      cases (snapshot.view runtime.taskId).acceptedStatus runtime with
      | none => rfl
      | some status => simp [DaemonSnapshot.view, DaemonSnapshot.task, hid]
  | tablesReloading tasks queue =>
    cases tasks <;> rfl
  | engine message => exact view_applyEngineMessage snapshot message id
  | taskChanged task => exact view_applyTaskChanged snapshot task id
  | tasksChanged tasks =>
    simp only [applyDaemonEvent, TaskView.effect]
    induction tasks generalizing snapshot with
    | nil => rfl
    | cons task tasks ih => rw [List.foldl_cons, List.foldl_cons, ih, view_applyTaskChanged]
  | taskDeleted taskId => exact view_removeTask snapshot taskId id
  | tasksDeleted taskIds => exact view_removeTasks snapshot taskIds id
  | _ => rfl

end Protocol
