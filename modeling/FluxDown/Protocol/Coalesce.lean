import FluxDown.Protocol.Agent

/-!
# The frame queue of a lagging subscriber

Library `Protocol`. A forwarder queues the frames of the stream and takes them out when the
socket can be written. While frames wait, a frame that supersedes an earlier one of the same
entity is merged with it and takes its own, later place; marks of what the frames between
touch decide whether the earlier one may be passed. A frame that is taken out covers the
stream from the last one taken out before.
-/

namespace Protocol

open Engine.QueueOrder

variable {P : Payloads}

/-- Entities whose frames can be merged (`src/native/protocol/src/coalesce.rs:19–28`). -/
inductive Key where
  | progress (task : String)
  | runtime (task : String)
  | segments (task : String)
  | runtimeStats
  | shareSession (session : String)
  | queue
deriving DecidableEq

/-- What a frame means for merging (`coalesce.rs:31–41`). -/
inductive Touch where
  /-- No entity that can be merged. -/
  | none
  /-- These tasks. -/
  | tasks (taskIds : List String)
  /-- The whole projection. -/
  | all
  /-- An entity that can be merged. -/
  | keyed (key : Key)
deriving DecidableEq

/-- The task of an entity (`coalesce.rs:156–161`). -/
def Key.task : Key → Option String
  | .progress task | .runtime task | .segments task => some task
  | .runtimeStats | .queue | .shareSession _ => none

/-- What a message of the engine touches (`coalesce.rs:252–304`). -/
def engineTouch : WsServerMsg P → Touch
  | .taskProgress progress =>
    if progress.deleted then .tasks [progress.taskId] else .keyed (.progress progress.taskId)
  | .segmentProgress taskId _ _ => .keyed (.segments taskId)
  | .queuePositionsChanged _ | .queueOrderChanged _ _ => .keyed .queue
  | .tasksSnapshot _ => .all
  | .segmentSplit taskId | .taskCdnEvent taskId | .taskMetaProbed taskId _ _
  | .taskQueueChanged taskId _ | .taskRouteChanged taskId _ | .hlsSelectionRequest taskId
  | .btSelectionRequest taskId | .resolveVariantRequest taskId | .pluginHookActivity taskId =>
    .tasks [taskId]
  | .duplicateTorrent taskId existingTaskId => .tasks [taskId, existingTaskId]
  | .fileMissingChanged updates => .tasks (updates.map FileMissingUpdateDto.taskId)
  | .queuesChanged _ | .priorityTaskChanged _ | .pong | .pluginAutoDisabled _ _
  | .pluginsChanged | .groupsChanged _ | .rssSourcesChanged _ | .rssItemsChanged _
  | .rssFeedValidated | .componentProgress | .componentResult | .linkIncomingPairing
  | .linkDevicesChanged | .webhookDeliveriesChanged _ => .none

/-- What an event of the daemon touches (`coalesce.rs:213–250`). -/
def daemonTouch : DaemonEvent P → Touch
  | .taskRuntimeChanged runtime => .keyed (.runtime runtime.taskId)
  | .runtimeStatsChanged _ => .keyed .runtimeStats
  | .snapshotReplaced _ => .all
  | .tablesReloading (some _) _ => .all
  | .tablesReloading .none _ => .keyed .queue
  | .engine message => engineTouch message
  | .taskChanged task => .tasks [task.taskId]
  | .tasksChanged tasks => .tasks (tasks.map TaskDto.taskId)
  | .taskDeleted taskId => .tasks [taskId]
  | .tasksDeleted taskIds => .tasks taskIds
  | .taskActivityAdded | .queuesChanged _ | .groupsChanged _ | .configChanged _
  | .rssChanged _ _ | .pluginsChanged _ | .componentsChanged _ | .webhooksChanged _
  | .webhooksCleared | .selectionPending _ | .selectionResolved _ | .taskNotice
  | .pluginViewFrame | .pluginViewClosed | .pluginToast => .none

/-- What a service event touches (`coalesce.rs:177–211`). -/
def touch : ServiceEvent P → Touch
  | .daemon event | .agent (.daemon event) => daemonTouch event
  | .agent (.daemonSnapshotReplaced _) | .agent (.daemonConnectionChanged _) => .all
  | .agent (.shareProgress progress) => .keyed (.shareSession progress.sessionId)
  | .agent (.sessionChanged _) | .agent (.syncChanged _) | .agent (.cloudConnectionChanged _)
  | .agent (.preferencesChanged _) | .agent (.gatewayChanged _)
  | .agent (.cloudDevicesChanged _) | .agent (.linkedDevicesChanged _)
  | .agent (.linkPairingRequestsChanged _) | .agent (.linkDiscoveredChanged _)
  | .agent (.remoteTasksChanged _) | .agent (.pendingCapturesChanged _)
  | .agent (.shellChanged _) | .agent (.powerChanged _) | .agent (.updateChanged _)
  | .agent (.cloudNotifyChanged _) | .agent (.shareChanged _) | .agent .captureTasksStarted
  | .agent .captureTasksResumed | .agent .sessionRevoked => .none

/-! ## Merging two frames -/

/-- Progress that takes over what a later message leaves unchanged (`coalesce.rs:356–367`). -/
def TaskProgress.inherit (new old : TaskProgress) : TaskProgress :=
  { new with
    fileName := if new.fileName.isEmpty then old.fileName else new.fileName
    saveDir := if new.saveDir.isEmpty then old.saveDir else new.saveDir
    url := if new.url.isEmpty then old.url else new.url }

/-- The message that stands for two of one entity, none where they stay apart
(`coalesce.rs:338–398`). -/
def mergeEngine : WsServerMsg P → WsServerMsg P → Option (WsServerMsg P)
  | .taskProgress old, .taskProgress new =>
    if old.status ≠ new.status then none else some (.taskProgress (new.inherit old))
  | .segmentProgress _ _ _, .segmentProgress taskId totalBytes segments =>
    some (.segmentProgress taskId totalBytes segments)
  | _, .queuePositionsChanged positions => some (.queuePositionsChanged positions)
  | .queuePositionsChanged base, .queueOrderChanged removed added =>
    some (.queuePositionsChanged (applyQueueOrder base removed added))
  | .queueOrderChanged oldRemoved oldAdded, .queueOrderChanged removed added =>
    let composed := composeQueueOrder oldRemoved oldAdded removed added
    some (.queueOrderChanged composed.1 composed.2)
  | _, _ => none

/-- The event that stands for two of one entity (`coalesce.rs:322–335`). -/
def mergeDaemon : DaemonEvent P → DaemonEvent P → Option (DaemonEvent P)
  | .runtimeStatsChanged _, .runtimeStatsChanged stats => some (.runtimeStatsChanged stats)
  | .taskRuntimeChanged old, .taskRuntimeChanged new =>
    if !new.segments.isEmpty && old.sampleSequence != 0 &&
        decide (old.sampleSequence < new.sampleSequence) then
      some (.taskRuntimeChanged new)
    else none
  | .engine old, .engine new => (mergeEngine old new).map .engine
  | _, .tablesReloading .none queue => some (.tablesReloading .none queue)
  | _, _ => none

/-- The service event that stands for two of one entity (`coalesce.rs:308–336`). -/
def merge : ServiceEvent P → ServiceEvent P → Option (ServiceEvent P)
  | .agent (.shareProgress old), .agent (.shareProgress new) =>
    if old.sessionId = new.sessionId then some (.agent (.shareProgress new)) else none
  | earlier, .daemon next => earlier.daemonEvent.bind fun previous ↦
    (mergeDaemon previous next).map .daemon
  | earlier, .agent (.daemon next) => earlier.daemonEvent.bind fun previous ↦
    (mergeDaemon previous next).map fun event ↦ .agent (.daemon event)
  | _, _ => none

/-! ## The queue -/

/-- The queue of a subscriber (`coalesce.rs:43–60`). -/
structure FrameQueue (P : Payloads) where
  /-- Waiting frames, none where a frame was merged into a later one. -/
  slots : List (Option (EventFrame P))
  /-- Number of the first slot. -/
  head : Nat
  /-- The slot of the latest frame of an entity. -/
  keys : Key → Option Nat
  /-- The slot of the latest frame that touches a task. -/
  touched : String → Option Nat
  /-- The number after the latest frame that touches everything. -/
  barrier : Nat
  /-- The number of frames waiting. -/
  live : Nat
  /-- The sequence number of the last frame taken out. -/
  lastSent : Option Nat
  /-- Where the first frame queued starts to cover the stream. -/
  firstFrom : Option Nat

namespace FrameQueue

/-- The empty queue. -/
def new : FrameQueue P := ⟨[], 0, fun _ ↦ none, fun _ ↦ none, 0, 0, none, none⟩

/-- Frames waiting (`coalesce.rs:68–72`). -/
def len (queue : FrameQueue P) : Nat := queue.live

/-- The slot of the latest frame of the entity, where it still waits and neither a frame that
touches everything nor one that touches its task came after it (`coalesce.rs:141–154`). -/
def mergeable (queue : FrameQueue P) (key : Key) : Option Nat :=
  match queue.keys key with
  | none => none
  | some earlier =>
    if earlier < queue.head ∨ earlier < queue.barrier then none
    else match key.task with
      | some task => if queue.touched task ≠ some earlier then none else some earlier
      | none => some earlier

/-- The slot to merge with and the event that stands for both. -/
def mergeWith (queue : FrameQueue P) (key : Key) (event : ServiceEvent P) :
    Option (Nat × ServiceEvent P) :=
  (queue.mergeable key).bind fun earlier ↦
    (queue.slots[earlier - queue.head]?.join).bind fun previous ↦
      (merge previous.event event).map fun merged ↦ (earlier - queue.head, merged)

/-- Put a frame at the end. -/
def enqueue (queue : FrameQueue P) (frame : EventFrame P) : FrameQueue P :=
  { queue with slots := queue.slots ++ [some frame], live := queue.live + 1 }

/-- The number of the next slot. -/
def next (queue : FrameQueue P) : Nat := queue.head + queue.slots.length

/-- Note where the first frame starts to cover the stream (`coalesce.rs:81–83`). -/
def begin (queue : FrameQueue P) (frame : EventFrame P) : FrameQueue P :=
  { queue with
    firstFrom :=
      if queue.firstFrom.isNone && queue.lastSent.isNone then some frame.coversFrom
      else queue.firstFrom }

/-- Everything is touched in the next slot (`coalesce.rs:88–92`). -/
def markAll (queue : FrameQueue P) : FrameQueue P :=
  { queue with barrier := queue.next + 1, keys := fun _ ↦ none, touched := fun _ ↦ none }

/-- The tasks are touched in the next slot (`coalesce.rs:93–97`). -/
def markTasks (queue : FrameQueue P) (taskIds : List String) : FrameQueue P :=
  { queue with
    touched := fun task ↦ if task ∈ taskIds then some queue.next else queue.touched task }

/-- The next slot is the entity's (`coalesce.rs:108–111`). -/
def markKey (queue : FrameQueue P) (key : Key) : FrameQueue P :=
  { queue with
    keys := Function.update queue.keys key (some queue.next)
    touched := fun task ↦ if key.task = some task then some queue.next else queue.touched task }

/-- Queue a frame (`coalesce.rs:80–115`). -/
def push (queue : FrameQueue P) (frame : EventFrame P) : FrameQueue P :=
  let queue := queue.begin frame
  match touch frame.event with
  | .none => queue.enqueue frame
  | .all => queue.markAll.enqueue frame
  | .tasks taskIds => (queue.markTasks taskIds).enqueue frame
  | .keyed key => match queue.mergeWith key frame.event with
    | none => (queue.markKey key).enqueue frame
    | some (slot, event) =>
      { queue.markKey key with
        slots := queue.slots.set slot none
        live := queue.live - 1 }.enqueue { frame with event := event }

/-- The frame as it leaves the queue: it covers the stream from the last one that left
(`coalesce.rs:125–129`). -/
def outgoing (queue : FrameQueue P) (frame : EventFrame P) : EventFrame P :=
  let previous := (queue.lastSent.or queue.firstFrom).getD frame.coversFrom
  { frame with previous := if previous ≠ frame.sequence - 1 then some previous else none }

/-- The queue after a frame left with the slots before it (`coalesce.rs:119–130`). -/
def taken (queue : FrameQueue P) (frame : EventFrame P) (rest : List (Option (EventFrame P))) :
    FrameQueue P :=
  { queue with
    slots := rest
    head := queue.head + (queue.slots.length - rest.length)
    live := queue.live - 1
    lastSent := some frame.sequence }

/-- Nothing waits, so nothing is marked (`coalesce.rs:131–135`). -/
def cleared (queue : FrameQueue P) : FrameQueue P :=
  { queue with slots := [], keys := fun _ ↦ none, touched := fun _ ↦ none }

/-- Take the next frame out (`coalesce.rs:118–139`). -/
def pop (queue : FrameQueue P) : Option (EventFrame P) × FrameQueue P :=
  match queue.slots.dropWhile Option.isNone with
  | some frame :: rest =>
    let after := queue.taken frame rest
    (some (queue.outgoing frame), if after.live = 0 then after.cleared else after)
  | _ => (none, { queue with slots := [], head := queue.head + queue.slots.length })

end FrameQueue

/-! ## A subscriber's connection -/

/-- The forwarder queues a frame or takes one out. -/
inductive QueueOp (P : Payloads) where
  | push (frame : EventFrame P)
  | pop

/-- The queue and the frames taken out of it. -/
structure Forwarder (P : Payloads) where
  /-- The queue. -/
  queue : FrameQueue P
  /-- Frames taken out so far. -/
  sent : List (EventFrame P)

namespace Forwarder

/-- A new connection. -/
def new : Forwarder P := ⟨FrameQueue.new, []⟩

/-- Queue a frame or take one out. -/
def step (forwarder : Forwarder P) : QueueOp P → Forwarder P
  | .push frame => { forwarder with queue := forwarder.queue.push frame }
  | .pop =>
    { queue := forwarder.queue.pop.2
      sent := forwarder.sent ++ forwarder.queue.pop.1.toList }

end Forwarder

/-- The frames queued by a list of operations. -/
def pushed (ops : List (QueueOp P)) : List (EventFrame P) :=
  ops.filterMap fun op ↦ match op with
    | .push frame => some frame
    | .pop => none

end Protocol
