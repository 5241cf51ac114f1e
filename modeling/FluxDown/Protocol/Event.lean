import FluxDown.Base.Run
import FluxDown.Protocol.Daemon

/-!
# Event application

Library `Protocol`. Daemon events reduce the daemon projection and agent events the agent
projection; daemon and clients share the reducers, so that a client which takes every event
after its snapshot follows the server. A frame carries an event with its place in the stream
and, where earlier frames were merged into it, the interval it covers.
-/

namespace Protocol

open Base

variable {P : Payloads}

/-! ## Task rows and runtime entries -/

/-- The status keeps a runtime entry: every one but completed
(`src/native/protocol/src/event.rs:817–819`). -/
def runtimeRetained (status : Int) : Bool := status != 3

/-- The status transfers nothing. -/
def inactive (status : Int) : Bool := !(status == 1 || status == 5)

/-- No reading of the entry shows activity (`event.rs:1092–1098`). -/
def zeroRuntimeActivity (runtime : TaskRuntimeDto P) : TaskRuntimeDto P :=
  { runtime with
    activeTransfers := some 0
    connectedPeers := some 0
    segments := runtime.segments.map fun segment ↦ { segment with active := some false } }

/-- Runtime entries after a task took the status (`event.rs:1082–1090`). -/
def settleRuntime (taskRuntime : SortedMap String (TaskRuntimeDto P)) (taskId : String)
    (status : Int) : SortedMap String (TaskRuntimeDto P) :=
  if !runtimeRetained status then taskRuntime.erase taskId
  else if inactive status then taskRuntime.modify taskId zeroRuntimeActivity
  else taskRuntime

namespace DaemonSnapshot

/-- The row of a task (`event.rs:127–133`). -/
def task (snapshot : DaemonSnapshot P) (taskId : String) : Option (TaskDto P) :=
  lastRow? TaskDto.taskId taskId snapshot.tasks

/-- Rewrite the row of a task (`event.rs:120–123`). -/
def updateTask (snapshot : DaemonSnapshot P) (taskId : String) (f : TaskDto P → TaskDto P) :
    DaemonSnapshot P :=
  { snapshot with tasks := modifyRow TaskDto.taskId taskId f snapshot.tasks }

/-- Remove the rows of a task (`event.rs:162–168`). -/
def removeTask (snapshot : DaemonSnapshot P) (taskId : String) : DaemonSnapshot P :=
  { snapshot with tasks := snapshot.tasks.filter fun row ↦ row.taskId ∉ [taskId] }

/-- Remove tasks and their runtime entries (`event.rs:171–182`). -/
def removeTasks (snapshot : DaemonSnapshot P) (taskIds : List String) : DaemonSnapshot P :=
  { snapshot with
    tasks := snapshot.tasks.filter fun row ↦ row.taskId ∉ taskIds
    taskRuntime := snapshot.taskRuntime.filter fun taskId _ ↦ taskId ∉ taskIds }

/-- Keep the runtime entries that the task table supports (`event.rs:186–204`). -/
def settleTaskTable (snapshot : DaemonSnapshot P) : DaemonSnapshot P :=
  let retained := snapshot.taskRuntime.filter fun taskId _ ↦
    (snapshot.task taskId).any fun task ↦ runtimeRetained task.status
  { snapshot with
    taskRuntime := retained.mapValues fun taskId runtime ↦
      if (snapshot.task taskId).any fun task ↦ inactive task.status then
        zeroRuntimeActivity runtime
      else runtime }

/-- Empty the tables that are to be loaded again (`event.rs:328–339`). -/
def beginReload (snapshot : DaemonSnapshot P) (tasks queue : Option Nat) : DaemonSnapshot P :=
  { snapshot with
    tasks := if tasks.isSome then [] else snapshot.tasks
    taskTotal := tasks.or snapshot.taskTotal
    queuePositions := if queue.isSome then [] else snapshot.queuePositions
    queueTotal := queue.or snapshot.queueTotal }

end DaemonSnapshot

/-- The status a runtime sample is taken under: its task is present and not completed, and the
sample is newer than the one shown (`event.rs:823–840`). -/
def acceptedRuntimeStatus (snapshot : DaemonSnapshot P) (runtime : TaskRuntimeDto P) :
    Option Int :=
  let stale := (snapshot.taskRuntime.get? runtime.taskId).any fun previous ↦
    previous.sampleSequence != 0 && decide (runtime.sampleSequence ≤ previous.sampleSequence)
  if stale then none
  else ((snapshot.task runtime.taskId).map TaskDto.status).filter runtimeRetained

/-- The entry a runtime sample leads to (`event.rs:846–863`). -/
def sampledRuntime (previous : Option (TaskRuntimeDto P)) (status : Int)
    (runtime : TaskRuntimeDto P) : TaskRuntimeDto P :=
  let segments :=
    if runtime.segments.isEmpty then previous.elim runtime.segments TaskRuntimeDto.segments
    else runtime.segments
  if inactive status then
    { runtime with
      activeTransfers := some 0
      segments := segments.map fun segment ↦ { segment with active := some false } }
  else { runtime with segments := segments }

/-- Replace the row of a task or add it, then settle its runtime (`event.rs:919–926`). -/
def applyTaskChanged (snapshot : DaemonSnapshot P) (task : TaskDto P) : DaemonSnapshot P :=
  { snapshot with
    tasks := upsertRow TaskDto.taskId task snapshot.tasks
    taskRuntime := settleRuntime snapshot.taskRuntime task.taskId task.status }

/-! ## Messages of the engine -/

/-- The message reports that its task was deleted. -/
def TaskProgress.deleted (progress : TaskProgress) : Bool :=
  progress.status == 4 && progress.errorMessage == "deleted"

/-- The row after a progress message (`event.rs:954–972`). -/
def TaskProgress.update (progress : TaskProgress) (task : TaskDto P) : TaskDto P :=
  { task with
    status := progress.status
    downloadedBytes := progress.downloadedBytes
    totalBytes := progress.totalBytes
    fileName := if progress.fileName.isEmpty then task.fileName else progress.fileName
    saveDir := if progress.saveDir.isEmpty then task.saveDir else progress.saveDir
    url := if progress.url.isEmpty then task.url else progress.url
    errorMessage := progress.errorMessage
    uploadedBytes := progress.uploadedBytes
    seedingStatus := progress.seedingStatus
    seedingMessage := progress.seedingMessage
    seedingTimeSecs := progress.seedingTimeSecs }

/-- The row after its file was probed (`event.rs:1014–1025`). -/
def probedTask (fileName : String) (totalBytes : Int) (task : TaskDto P) : TaskDto P :=
  { task with
    fileName := if fileName.isEmpty then task.fileName else fileName
    totalBytes := totalBytes }

/-- The entry of a task without readings (`event.rs:989–996`). -/
def blankRuntime (taskId : String) (status : Int) : TaskRuntimeDto P where
  taskId := taskId
  sampledAtMs := 0
  sampleSequence := 0
  activeTransfers := if inactive status then some 0 else none
  connectedPeers := none
  parallelismLimit := none
  totalBytes := 0
  segments := []
  sourceBytes := none

/-- The entry after the stored segments were reported, which no sample gives way to
(`event.rs:997–1011`). -/
def storedRuntime (status totalBytes : Int) (segments : List SegmentDetailDto)
    (runtime : TaskRuntimeDto P) : TaskRuntimeDto P :=
  if runtime.sampleSequence = 0 then
    { runtime with
      totalBytes := totalBytes
      segments := segments.map fun segment ↦
        { index := segment.index
          startByte := segment.startByte
          endByte := segment.endByte
          downloadedBytes := segment.downloadedBytes
          active := if inactive status then some false else none } }
  else runtime

/-- The row after its file vanished or came back (`event.rs:1055–1061`). -/
def FileMissingUpdateDto.markTask (update : FileMissingUpdateDto) (task : TaskDto P) : TaskDto P :=
  { task with fileMissing := update.missing }

/-- Most deliveries kept (`event.rs:1106`). -/
def webhookDeliveryLimit : Nat := 1000

/-- Take deliveries into the log, newest first (`event.rs:1111–1126`). -/
def mergeWebhookDeliveries (current delta : List (WebhookDeliveryDto P)) :
    List (WebhookDeliveryDto P) :=
  if delta.isEmpty then current
  else
    let kept := current.filter fun delivery ↦
      delivery.deliveryId ∉ delta.map WebhookDeliveryDto.deliveryId
    ((kept ++ delta).mergeSort fun a b ↦ decide (b.timestampMs ≤ a.timestampMs)).take
      webhookDeliveryLimit

/-- Mark a plugin disabled (`event.rs:1068–1077`). -/
def disablePlugin (identity reason : String) : List (PluginDto P) → List (PluginDto P)
  | [] => []
  | plugin :: plugins =>
    if plugin.identity = identity then
      { plugin with enabled := false, disabledReason := reason } :: plugins
    else plugin :: disablePlugin identity reason plugins

/-- Reduce a message of the engine (`event.rs:928–1079`). -/
def applyEngineMessage (snapshot : DaemonSnapshot P) : WsServerMsg P → DaemonSnapshot P
  | .tasksSnapshot tasks =>
    { snapshot with tasks := tasks, taskTotal := none }.settleTaskTable
  | .taskProgress progress =>
    if progress.deleted then
      { snapshot with taskRuntime := snapshot.taskRuntime.erase progress.taskId }.removeTask
        progress.taskId
    else
      { snapshot with
        taskRuntime := settleRuntime snapshot.taskRuntime progress.taskId progress.status
        }.updateTask progress.taskId progress.update
  | .segmentProgress taskId totalBytes segments =>
    match ((snapshot.task taskId).map TaskDto.status).filter runtimeRetained with
    | none => snapshot
    | some status =>
      let runtime := (snapshot.taskRuntime.get? taskId).getD (blankRuntime taskId status)
      { snapshot with
        taskRuntime :=
          snapshot.taskRuntime.insert taskId (storedRuntime status totalBytes segments runtime) }
  | .taskMetaProbed taskId fileName totalBytes =>
    snapshot.updateTask taskId (probedTask fileName totalBytes)
  | .taskQueueChanged taskId queueId =>
    snapshot.updateTask taskId fun task ↦ { task with queueId := queueId }
  | .taskRouteChanged taskId route =>
    snapshot.updateTask taskId fun task ↦ { task with autoRoute := route }
  | .queuesChanged queues => { snapshot with queues := queues }
  | .queuePositionsChanged positions =>
    { snapshot with queuePositions := positions, queueTotal := none }
  | .queueOrderChanged removed added =>
    { snapshot with queuePositions := applyQueueOrder snapshot.queuePositions removed added }
  | .groupsChanged groups => { snapshot with groups := groups }
  | .rssSourcesChanged sources => { snapshot with rssSources := sources }
  | .rssItemsChanged sourceId =>
    let revision := (snapshot.rssItemRevisions.get? sourceId).getD 0
    { snapshot with
      rssItemRevisions :=
        snapshot.rssItemRevisions.insert sourceId (min (revision + 1) (2 ^ 64 - 1)) }
  | .webhookDeliveriesChanged deliveries =>
    { snapshot with
      webhookDeliveries := mergeWebhookDeliveries snapshot.webhookDeliveries deliveries }
  | .fileMissingChanged updates =>
    updates.foldl (fun snapshot update ↦ snapshot.updateTask update.taskId update.markTask) snapshot
  | .priorityTaskChanged priorityTaskId =>
    { snapshot with priority := if priorityTaskId.isEmpty then [] else [priorityTaskId] }
  | .pluginAutoDisabled identity reason =>
    { snapshot with plugins := disablePlugin identity reason snapshot.plugins }
  | .segmentSplit _ | .taskCdnEvent _ | .hlsSelectionRequest _ | .btSelectionRequest _
  | .resolveVariantRequest _ | .pong | .duplicateTorrent _ _ | .pluginHookActivity _
  | .pluginsChanged | .rssFeedValidated | .componentProgress | .componentResult
  | .linkIncomingPairing | .linkDevicesChanged => snapshot

/-! ## Events of the daemon -/

/-- Reduce an event of the daemon (`event.rs:842–917`). -/
def applyDaemonEvent (snapshot : DaemonSnapshot P) : DaemonEvent P → DaemonSnapshot P
  | .taskRuntimeChanged runtime =>
    match acceptedRuntimeStatus snapshot runtime with
    | none => snapshot
    | some status =>
      { snapshot with
        taskRuntime := snapshot.taskRuntime.insert runtime.taskId
          (sampledRuntime (snapshot.taskRuntime.get? runtime.taskId) status runtime) }
  | .snapshotReplaced replacement => replacement
  | .tablesReloading tasks queue => snapshot.beginReload tasks queue
  | .engine message => applyEngineMessage snapshot message
  | .taskChanged task => applyTaskChanged snapshot task
  | .tasksChanged tasks => tasks.foldl applyTaskChanged snapshot
  | .taskDeleted taskId =>
    { snapshot.removeTask taskId with taskRuntime := snapshot.taskRuntime.erase taskId }
  | .tasksDeleted taskIds => snapshot.removeTasks taskIds
  | .queuesChanged queues => { snapshot with queues := queues }
  | .groupsChanged groups => { snapshot with groups := groups }
  | .configChanged config => { snapshot with config := config }
  | .rssChanged sourceId itemRevision =>
    { snapshot with
      rssItemRevisions := snapshot.rssItemRevisions.insert sourceId itemRevision }
  | .pluginsChanged plugins => { snapshot with plugins := plugins }
  | .componentsChanged components => { snapshot with components := components }
  | .webhooksChanged deliveries =>
    { snapshot with
      webhookDeliveries := mergeWebhookDeliveries snapshot.webhookDeliveries deliveries }
  | .webhooksCleared => { snapshot with webhookDeliveries := [] }
  | .runtimeStatsChanged stats => { snapshot with runtimeStats := stats }
  | .selectionPending request =>
    { snapshot with
      pendingSelections := snapshot.pendingSelections.filter
        (fun item ↦ item.requestId ≠ request.requestId) ++ [request] }
  | .selectionResolved requestId =>
    { snapshot with
      pendingSelections := snapshot.pendingSelections.filter fun item ↦ item.requestId ≠ requestId }
  | .taskActivityAdded | .taskNotice | .pluginViewFrame | .pluginViewClosed | .pluginToast =>
    snapshot

end Protocol
