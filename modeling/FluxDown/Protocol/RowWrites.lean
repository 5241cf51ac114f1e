import FluxDown.Base.Overwrites
import FluxDown.Protocol.TaskView

/-!
# Events overwrite rows

Library `Protocol`. An event puts a whole row in, removes it, or sets some of its fields and keeps
the others. So a row that has the first events of a stream in it already is brought by the whole
stream to where the stream leads from the start.
-/

namespace Protocol

open Base

variable {P : Payloads}

/-- The fields of a row that are set. -/
structure RowPatch where
  url : Option String
  fileName : Option String
  saveDir : Option String
  status : Option Int
  downloadedBytes : Option Int
  totalBytes : Option Int
  errorMessage : Option String
  queueId : Option String
  fileMissing : Option Bool
  autoRoute : Option String
  uploadedBytes : Option Int
  seedingStatus : Option Int
  seedingMessage : Option String
  seedingTimeSecs : Option Int

namespace RowPatch

/-- No field is set. -/
def keep : RowPatch :=
  ⟨none, none, none, none, none, none, none, none, none, none, none, none, none, none⟩

/-- Set the fields of a row. -/
def apply (patch : RowPatch) (row : TaskDto P) : TaskDto P :=
  { row with
    url := patch.url.getD row.url
    fileName := patch.fileName.getD row.fileName
    saveDir := patch.saveDir.getD row.saveDir
    status := patch.status.getD row.status
    downloadedBytes := patch.downloadedBytes.getD row.downloadedBytes
    totalBytes := patch.totalBytes.getD row.totalBytes
    errorMessage := patch.errorMessage.getD row.errorMessage
    queueId := patch.queueId.getD row.queueId
    fileMissing := patch.fileMissing.getD row.fileMissing
    autoRoute := patch.autoRoute.getD row.autoRoute
    uploadedBytes := patch.uploadedBytes.getD row.uploadedBytes
    seedingStatus := patch.seedingStatus.getD row.seedingStatus
    seedingMessage := patch.seedingMessage.getD row.seedingMessage
    seedingTimeSecs := patch.seedingTimeSecs.getD row.seedingTimeSecs }

/-- Set the fields of one patch, then those of another. -/
def andThen (first second : RowPatch) : RowPatch where
  url := second.url.or first.url
  fileName := second.fileName.or first.fileName
  saveDir := second.saveDir.or first.saveDir
  status := second.status.or first.status
  downloadedBytes := second.downloadedBytes.or first.downloadedBytes
  totalBytes := second.totalBytes.or first.totalBytes
  errorMessage := second.errorMessage.or first.errorMessage
  queueId := second.queueId.or first.queueId
  fileMissing := second.fileMissing.or first.fileMissing
  autoRoute := second.autoRoute.or first.autoRoute
  uploadedBytes := second.uploadedBytes.or first.uploadedBytes
  seedingStatus := second.seedingStatus.or first.seedingStatus
  seedingMessage := second.seedingMessage.or first.seedingMessage
  seedingTimeSecs := second.seedingTimeSecs.or first.seedingTimeSecs

private theorem getD_or {α : Type} (first second : Option α) (a : α) :
    (second.or first).getD a = second.getD (first.getD a) := by cases second <;> rfl

private theorem getD_getD {α : Type} (field : Option α) (a : α) :
    field.getD (field.getD a) = field.getD a := by cases field <;> rfl

private theorem apply_andThen (first second : RowPatch) (row : TaskDto P) :
    (first.andThen second).apply row = second.apply (first.apply row) := by
  simp only [apply, andThen, getD_or]

private theorem apply_apply (patch : RowPatch) (row : TaskDto P) :
    patch.apply (patch.apply row) = patch.apply row := by
  simp only [apply, getD_getD]

end RowPatch

/-- What an event does to the row of a task, if any. -/
inductive RowWrite (P : Payloads) where
  | replace (row : Option (TaskDto P))
  | patch (fields : RowPatch)

namespace RowWrite

def apply : RowWrite P → Option (TaskDto P) → Option (TaskDto P)
  | .replace row, _ => row
  | .patch fields, row => row.map fields.apply

def andThen : RowWrite P → RowWrite P → RowWrite P
  | _, .replace row => .replace row
  | .replace row, .patch fields => .replace (row.map fields.apply)
  | .patch fields, .patch fields' => .patch (fields.andThen fields')

end RowWrite

/-- Writes of rows overwrite. -/
def rowWrites (P : Payloads) : Overwrites (Option (TaskDto P)) (RowWrite P) where
  apply := RowWrite.apply
  skip := .patch .keep
  andThen := RowWrite.andThen
  apply_skip row := by cases row <;> rfl
  apply_andThen first second row := by
    cases second with
    | replace after => rfl
    | patch fields =>
      cases first with
      | replace before => rfl
      | patch fields' =>
        simp only [RowWrite.andThen, RowWrite.apply, Option.map_map]
        congr 1
        funext row
        exact RowPatch.apply_andThen fields' fields row
  apply_apply write row := by
    cases write with
    | replace after => rfl
    | patch fields =>
      simp only [RowWrite.apply, Option.map_map]
      congr 1
      funext row
      exact RowPatch.apply_apply fields row

/-! ## Events -/

/-- The row of a task after an event. -/
def rowAfter (id : String) (row : Option (TaskDto P)) (event : DaemonEvent P) :
    Option (TaskDto P) := (TaskView.effect ⟨row, none⟩ id event).row

private theorem row_fold {α : Type} (items : List α) {f g : TaskView P → α → TaskView P}
    (h : ∀ view view' item, view.row = view'.row → (f view item).row = (g view' item).row)
    {view view' : TaskView P} (hrow : view.row = view'.row) :
    (items.foldl f view).row = (items.foldl g view').row := by
  induction items generalizing view view' with
  | nil => exact hrow
  | cons item items ih => exact ih (h view view' item hrow)

/-- What an event does to the row of a task does not depend on its readings. -/
theorem row_effect (view : TaskView P) (id : String) (event : DaemonEvent P) :
    (view.effect id event).row = rowAfter id view.row event := by
  unfold rowAfter
  cases event with
  | taskRuntimeChanged runtime =>
    have hkeep : ∀ view : TaskView P, (view.sampled runtime).row = view.row := by
      intro view
      unfold TaskView.sampled
      cases view.acceptedStatus runtime <;> rfl
    simp only [TaskView.effect, apply_ite TaskView.row, hkeep, ite_self]
  | tablesReloading tasks queue => simp only [TaskView.effect, apply_ite TaskView.row]
  | engine message =>
    cases message with
    | taskProgress progress =>
      simp only [TaskView.effect, TaskView.engineEffect, TaskView.progressed,
        apply_ite TaskView.row]
    | segmentProgress taskId totalBytes segments =>
      have hkeep : ∀ view : TaskView P,
          (view.stored taskId totalBytes segments).row = view.row := by
        intro view
        unfold TaskView.stored
        cases view.retainedStatus <;> rfl
      simp only [TaskView.effect, TaskView.engineEffect, apply_ite TaskView.row, hkeep, ite_self]
    | taskMetaProbed taskId fileName totalBytes =>
      simp only [TaskView.effect, TaskView.engineEffect, TaskView.rewritten, apply_ite TaskView.row]
    | taskQueueChanged taskId queueId =>
      simp only [TaskView.effect, TaskView.engineEffect, TaskView.rewritten, apply_ite TaskView.row]
    | taskRouteChanged taskId route =>
      simp only [TaskView.effect, TaskView.engineEffect, TaskView.rewritten, apply_ite TaskView.row]
    | fileMissingChanged updates =>
      apply row_fold
      · intro view view' update hrow
        simp only [apply_ite TaskView.row, TaskView.rewritten, hrow]
      · rfl
    | _ => rfl
  | taskChanged task => simp only [TaskView.effect, TaskView.changed, apply_ite TaskView.row]
  | tasksChanged tasks =>
    apply row_fold
    · intro view view' task hrow
      simp only [apply_ite TaskView.row, TaskView.changed, hrow]
    · rfl
  | taskDeleted taskId => simp only [TaskView.effect, apply_ite TaskView.row]
  | tasksDeleted taskIds => simp only [TaskView.effect, apply_ite TaskView.row]
  | _ => rfl

/-! ## Events overwrite -/

private theorem does_replace (row : Option (TaskDto P)) : (rowWrites P).Does fun _ ↦ row :=
  ⟨.replace row, fun _ ↦ rfl⟩

private theorem does_patch (fields : RowPatch) {f : TaskDto P → TaskDto P}
    (h : ∀ row, f row = fields.apply row) : (rowWrites P).Does fun row ↦ row.map f :=
  ⟨.patch fields, fun row ↦ by
    show row.map f = row.map fields.apply
    congr 1
    funext row
    exact h row⟩

private theorem does_ite (c : Prop) [Decidable c] {f : Option (TaskDto P) → Option (TaskDto P)}
    (h : (rowWrites P).Does f) : (rowWrites P).Does fun row ↦ if c then f row else row := by
  by_cases hc : c
  · simpa only [if_pos hc] using h
  · simpa only [if_neg hc] using Overwrites.Does.skip

/-- The fields a progress message sets. -/
def TaskProgress.fields (progress : TaskProgress) : RowPatch where
  url := if progress.url.isEmpty then none else some progress.url
  fileName := if progress.fileName.isEmpty then none else some progress.fileName
  saveDir := if progress.saveDir.isEmpty then none else some progress.saveDir
  status := some progress.status
  downloadedBytes := some progress.downloadedBytes
  totalBytes := some progress.totalBytes
  errorMessage := some progress.errorMessage
  queueId := none
  fileMissing := none
  autoRoute := none
  uploadedBytes := some progress.uploadedBytes
  seedingStatus := some progress.seedingStatus
  seedingMessage := some progress.seedingMessage
  seedingTimeSecs := some progress.seedingTimeSecs

private theorem getD_ite {α : Type} (c : Prop) [Decidable c] (a b : α) :
    (if c then none else some a).getD b = if c then b else a := by split <;> rfl

private theorem update_eq (progress : TaskProgress) (row : TaskDto P) :
    progress.update row = progress.fields.apply row := by
  simp only [TaskProgress.update, RowPatch.apply, TaskProgress.fields, getD_ite, Option.getD_some,
    Option.getD_none]

private theorem probed_eq (fileName : String) (totalBytes : Int) (row : TaskDto P) :
    probedTask fileName totalBytes row =
      { RowPatch.keep with
        fileName := if fileName.isEmpty then none else some fileName
        totalBytes := some totalBytes }.apply row := by
  simp only [probedTask, RowPatch.apply, RowPatch.keep, getD_ite, Option.getD_some,
    Option.getD_none]

private theorem does_fold {α : Type} (items : List α) {f : TaskView P → α → TaskView P}
    {g : Option (TaskDto P) → α → Option (TaskDto P)}
    (hrow : ∀ view item, (f view item).row = g view.row item)
    (h : ∀ item ∈ items, (rowWrites P).Does fun row ↦ g row item) :
    (rowWrites P).Does fun row ↦ (items.foldl f ⟨row, none⟩).row := by
  have hfold : ∀ (items : List α) (view : TaskView P),
      (items.foldl f view).row = items.foldl g view.row := by
    intro items
    induction items with
    | nil => exact fun _ ↦ rfl
    | cons item items ih =>
      intro view
      rw [List.foldl_cons, List.foldl_cons, ih, hrow]
  simpa only [hfold] using Overwrites.Does.foldl h

/-- What an event does to the row of a task overwrites. -/
theorem does_rowAfter (id : String) (event : DaemonEvent P) :
    (rowWrites P).Does fun row ↦ rowAfter id row event := by
  cases event with
  | taskRuntimeChanged runtime =>
    have hrow : ∀ row : Option (TaskDto P),
        rowAfter id row (.taskRuntimeChanged runtime) = row := by
      intro row
      simp only [rowAfter, TaskView.effect, TaskView.sampled]
      split
      · split <;> rfl
      · rfl
    simpa only [hrow] using Overwrites.Does.skip
  | snapshotReplaced replacement => exact does_replace _
  | tablesReloading tasks queue =>
    have hrow : ∀ row : Option (TaskDto P), rowAfter id row (.tablesReloading tasks queue) =
        if tasks.isSome then none else row := by
      intro row
      simp only [rowAfter, TaskView.effect, apply_ite TaskView.row]
    simpa only [hrow] using does_ite _ (does_replace none)
  | engine message =>
    cases message with
    | tasksSnapshot tasks => exact does_replace _
    | taskProgress progress =>
      have hrow : ∀ row : Option (TaskDto P), rowAfter id row (.engine (.taskProgress progress)) =
          if id = progress.taskId then if progress.deleted then none else row.map progress.update
          else row := by
        intro row
        simp only [rowAfter, TaskView.effect, TaskView.engineEffect, TaskView.progressed,
          apply_ite TaskView.row]
      simp only [hrow]
      apply does_ite
      by_cases hdeleted : progress.deleted
      · simpa only [if_pos hdeleted] using does_replace none
      · simpa only [if_neg hdeleted] using does_patch _ (update_eq progress)
    | segmentProgress taskId totalBytes segments =>
      have hrow : ∀ row : Option (TaskDto P),
          rowAfter id row (.engine (.segmentProgress taskId totalBytes segments)) = row := by
        intro row
        simp only [rowAfter, TaskView.effect, TaskView.engineEffect, TaskView.stored]
        split
        · split <;> rfl
        · rfl
      simpa only [hrow] using Overwrites.Does.skip
    | taskMetaProbed taskId fileName totalBytes =>
      have hrow : ∀ row : Option (TaskDto P),
          rowAfter id row (.engine (.taskMetaProbed taskId fileName totalBytes)) =
            if id = taskId then row.map (probedTask fileName totalBytes) else row := by
        intro row
        simp only [rowAfter, TaskView.effect, TaskView.engineEffect, TaskView.rewritten,
          apply_ite TaskView.row]
      simpa only [hrow] using does_ite _ (does_patch _ (probed_eq fileName totalBytes))
    | taskQueueChanged taskId queueId =>
      have hrow : ∀ row : Option (TaskDto P),
          rowAfter id row (.engine (.taskQueueChanged taskId queueId)) =
            if id = taskId then row.map fun task ↦ { task with queueId := queueId } else row := by
        intro row
        simp only [rowAfter, TaskView.effect, TaskView.engineEffect, TaskView.rewritten,
          apply_ite TaskView.row]
      simp only [hrow]
      exact does_ite _ (does_patch { RowPatch.keep with queueId := some queueId } fun _ ↦ rfl)
    | taskRouteChanged taskId route =>
      have hrow : ∀ row : Option (TaskDto P),
          rowAfter id row (.engine (.taskRouteChanged taskId route)) =
            if id = taskId then row.map fun task ↦ { task with autoRoute := route } else row := by
        intro row
        simp only [rowAfter, TaskView.effect, TaskView.engineEffect, TaskView.rewritten,
          apply_ite TaskView.row]
      simp only [hrow]
      exact does_ite _ (does_patch { RowPatch.keep with autoRoute := some route } fun _ ↦ rfl)
    | fileMissingChanged updates =>
      apply does_fold updates (g := fun row update ↦
        if id = update.taskId then row.map update.markTask else row)
      · intro view update
        simp only [apply_ite TaskView.row, TaskView.rewritten]
      · intro update _
        exact does_ite _
          (does_patch { RowPatch.keep with fileMissing := some update.missing } fun _ ↦ rfl)
    | _ => exact Overwrites.Does.skip
  | taskChanged task =>
    have hrow : ∀ row : Option (TaskDto P), rowAfter id row (.taskChanged task) =
        if id = task.taskId then some task else row := by
      intro row
      simp only [rowAfter, TaskView.effect, TaskView.changed, apply_ite TaskView.row]
    simpa only [hrow] using does_ite _ (does_replace _)
  | tasksChanged tasks =>
    apply does_fold tasks (g := fun row task ↦ if id = task.taskId then some task else row)
    · intro view task
      simp only [apply_ite TaskView.row, TaskView.changed]
    · exact fun task _ ↦ does_ite _ (does_replace _)
  | taskDeleted taskId =>
    have hrow : ∀ row : Option (TaskDto P), rowAfter id row (.taskDeleted taskId) =
        if id = taskId then none else row := by
      intro row
      simp only [rowAfter, TaskView.effect, apply_ite TaskView.row]
    simpa only [hrow] using does_ite _ (does_replace none)
  | tasksDeleted taskIds =>
    have hrow : ∀ row : Option (TaskDto P), rowAfter id row (.tasksDeleted taskIds) =
        if id ∈ taskIds then none else row := by
      intro row
      simp only [rowAfter, TaskView.effect, apply_ite TaskView.row]
    simpa only [hrow] using does_ite _ (does_replace none)
  | _ => exact Overwrites.Does.skip

/-- The row of a task after events. -/
theorem task_run (snapshot : DaemonSnapshot P) (events : List (DaemonEvent P)) (id : String) :
    (run applyDaemonEvent snapshot events).task id =
      events.foldl (rowAfter id) (snapshot.task id) := by
  induction events generalizing snapshot with
  | nil => rfl
  | cons event events ih =>
    have hview := congrArg TaskView.row (view_applyDaemonEvent snapshot event id)
    have hstep : (applyDaemonEvent snapshot event).task id =
        rowAfter id (snapshot.task id) event := hview.trans (row_effect _ id event)
    rw [run_cons, ih, List.foldl_cons, hstep]

/-- A row that has the first events in it is brought by all of them where they lead. -/
theorem replay_rows (id : String) (row : Option (TaskDto P)) (before after : List (DaemonEvent P)) :
    (before ++ after).foldl (rowAfter id) (before.foldl (rowAfter id) row) =
      (before ++ after).foldl (rowAfter id) row :=
  Overwrites.Does.replay (fun event _ ↦ does_rowAfter id event) row

end Protocol
