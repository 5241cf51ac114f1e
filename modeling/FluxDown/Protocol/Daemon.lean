import FluxDown.Base.SortedMap
import FluxDown.Protocol.QueueTable

/-!
# Daemon projection and messages

Library `Protocol`. The rows of the projection a client keeps of the daemon, the messages
of the engine and the events of the daemon. Fields that only travel as part of a whole row
or table are types of the parameter `Payloads`; notices that change no projection keep the
data that decides which task they belong to and no other.
-/

namespace Protocol

open Base

/-- Types of the data that the projection stores and returns whole. -/
structure Payloads where
  /-- Remaining fields of a task row. -/
  TaskDetail : Type
  /-- Bytes by source of acceleration. -/
  SourceBytes : Type
  /-- Named queue. -/
  Queue : Type
  /-- Task group. -/
  Group : Type
  /-- Feed subscription. -/
  RssSource : Type
  /-- Remaining fields of a plugin row. -/
  PluginDetail : Type
  /-- Component status. -/
  Component : Type
  /-- Remaining fields of a delivery. -/
  DeliveryDetail : Type
  /-- Remaining fields of a selection request. -/
  SelectionDetail : Type
  /-- Session of the agent. -/
  Session : Type
  /-- Synchronisation status. -/
  Sync : Type
  /-- Reason of an error. -/
  ErrorReason : Type
  /-- Preferences of the agent. -/
  Preferences : Type
  /-- Gateway status. -/
  Gateway : Type
  /-- Remaining fields of a cloud device. -/
  DeviceDetail : Type
  /-- Linked device. -/
  LinkDevice : Type
  /-- Task of another device. -/
  RemoteTask : Type
  /-- Captured request waiting for confirmation. -/
  PendingCapture : Type
  /-- Incoming pairing request. -/
  PairingRequest : Type
  /-- Peer seen on the local network. -/
  DiscoveredPeer : Type
  /-- Shell status. -/
  Shell : Type
  /-- Power status. -/
  Power : Type
  /-- Update status. -/
  Update : Type
  /-- Remaining fields of the notification state. -/
  NotifyDetail : Type
  /-- Overview of cloud notifications. -/
  NotifyOverview : Type
  /-- Recent notification delivery. -/
  NotifyDelivery : Type
  /-- Remaining fields of the share state. -/
  ShareDetail : Type
  /-- Remaining fields of a share. -/
  ShareRowDetail : Type
  /-- Remaining fields of a receiver. -/
  ReceiverDetail : Type
  /-- Remaining fields of the share facts of a task. -/
  ShareFactsDetail : Type
  /-- Kind of a network path. -/
  PathKind : Type
  /-- Share of a whole. -/
  Ratio : Type

/-- A task row (`src/native/protocol/src/daemon.rs:538–636`). -/
structure TaskDto (P : Payloads) where
  taskId : String
  url : String
  fileName : String
  saveDir : String
  /-- 0 pending, 1 downloading, 2 paused, 3 completed, 4 error, 5 preparing. -/
  status : Int
  downloadedBytes : Int
  totalBytes : Int
  errorMessage : String
  queueId : String
  fileMissing : Bool
  autoRoute : String
  uploadedBytes : Int
  seedingStatus : Int
  seedingMessage : String
  seedingTimeSecs : Int
  detail : P.TaskDetail

/-- A segment of a transfer (`src/native/protocol/src/task_activity.rs:9–15`). -/
structure TaskSegmentDto where
  index : Int
  startByte : Int
  endByte : Int
  downloadedBytes : Int
  active : Option Bool
deriving DecidableEq

/-- Transfer readings of a task (`task_activity.rs:40–54`). -/
structure TaskRuntimeDto (P : Payloads) where
  taskId : String
  sampledAtMs : Int
  /-- Number of the sample at its source, 0 where the source has none. -/
  sampleSequence : Nat
  activeTransfers : Option Nat
  connectedPeers : Option Nat
  parallelismLimit : Option Nat
  totalBytes : Int
  segments : List TaskSegmentDto
  sourceBytes : Option P.SourceBytes

/-- A stored segment (`daemon.rs:2113–2118`). -/
structure SegmentDetailDto where
  index : Int
  startByte : Int
  endByte : Int
  downloadedBytes : Int

/-- Counters of the daemon (`daemon.rs:185–197`). -/
structure DaemonRuntimeStatsDto where
  activeTasks : Nat
  pendingTasks : Nat
  totalDownloadBps : Int
  totalUploadBps : Int
  diskFreeBytes : Option Nat
  saveDir : String
  retryPendingTasks : Nat
deriving DecidableEq

/-- Configuration (`daemon.rs:167–170`). -/
structure DaemonConfigSnapshot where
  revision : Nat
  values : SortedMap String String

/-- A plugin row (`daemon.rs:944–963`). -/
structure PluginDto (P : Payloads) where
  identity : String
  enabled : Bool
  disabledReason : String
  detail : P.PluginDetail

/-- An entry of the delivery log (`daemon.rs:3012–3030`). -/
structure WebhookDeliveryDto (P : Payloads) where
  deliveryId : String
  timestampMs : Int
  detail : P.DeliveryDetail

/-- A request to the user (`daemon.rs:146–152`). -/
structure SelectionRequestDto (P : Payloads) where
  requestId : String
  detail : P.SelectionDetail

/-- A file that vanished or came back (`daemon.rs:2167–2171`). -/
structure FileMissingUpdateDto where
  taskId : String
  missing : Bool

/-- A progress message (`daemon.rs:2221–2245`). -/
structure TaskProgress where
  taskId : String
  status : Int
  downloadedBytes : Int
  totalBytes : Int
  speed : Int
  uploadSpeed : Int
  /-- Empty where unchanged. -/
  fileName : String
  /-- Empty where unchanged. -/
  saveDir : String
  /-- Empty where unchanged. -/
  url : String
  errorMessage : String
  uploadedBytes : Int
  seedingStatus : Int
  seedingMessage : String
  seedingTimeSecs : Int

/-- Messages of the engine (`daemon.rs:2219–2404`). -/
inductive WsServerMsg (P : Payloads) where
  | taskProgress (progress : TaskProgress)
  | tasksSnapshot (tasks : List (TaskDto P))
  | segmentProgress (taskId : String) (totalBytes : Int) (segments : List SegmentDetailDto)
  | segmentSplit (taskId : String)
  | taskCdnEvent (taskId : String)
  | taskMetaProbed (taskId fileName : String) (totalBytes : Int)
  | queuesChanged (queues : List P.Queue)
  | taskQueueChanged (taskId queueId : String)
  | taskRouteChanged (taskId route : String)
  | queuePositionsChanged (positions : List QueuePositionDto)
  | queueOrderChanged (removed : List String) (added : List QueueOrderEntryDto)
  | fileMissingChanged (updates : List FileMissingUpdateDto)
  | priorityTaskChanged (priorityTaskId : String)
  | hlsSelectionRequest (taskId : String)
  | btSelectionRequest (taskId : String)
  | resolveVariantRequest (taskId : String)
  | pong
  | pluginAutoDisabled (identity reason : String)
  | duplicateTorrent (taskId existingTaskId : String)
  | pluginHookActivity (taskId : String)
  | pluginsChanged
  | groupsChanged (groups : List P.Group)
  | rssSourcesChanged (sources : List P.RssSource)
  | rssItemsChanged (sourceId : String)
  | rssFeedValidated
  | componentProgress
  | componentResult
  | linkIncomingPairing
  | linkDevicesChanged
  | webhookDeliveriesChanged (deliveries : List (WebhookDeliveryDto P))

/-- The projection of the daemon (`src/native/protocol/src/event.rs:21–60`). The cache from
task ids to row positions is left out: it maps an id to its last row. -/
structure DaemonSnapshot (P : Payloads) where
  taskRuntime : SortedMap String (TaskRuntimeDto P)
  tasks : List (TaskDto P)
  /-- The number of tasks still to be loaded. -/
  taskTotal : Option Nat
  /-- The number of queue rows still to be loaded. -/
  queueTotal : Option Nat
  queues : List P.Queue
  queuePositions : List QueuePositionDto
  groups : List P.Group
  config : DaemonConfigSnapshot
  rssSources : List P.RssSource
  rssItemRevisions : SortedMap String Nat
  plugins : List (PluginDto P)
  components : List P.Component
  webhookDeliveries : List (WebhookDeliveryDto P)
  priority : List String
  runtimeStats : DaemonRuntimeStatsDto
  pendingSelections : List (SelectionRequestDto P)

/-- Events of the daemon (`event.rs:430–498`). -/
inductive DaemonEvent (P : Payloads) where
  | taskRuntimeChanged (runtime : TaskRuntimeDto P)
  | taskActivityAdded
  | snapshotReplaced (snapshot : DaemonSnapshot P)
  | tablesReloading (tasks queue : Option Nat)
  | engine (message : WsServerMsg P)
  | taskChanged (task : TaskDto P)
  | tasksChanged (tasks : List (TaskDto P))
  | taskDeleted (taskId : String)
  | tasksDeleted (taskIds : List String)
  | queuesChanged (queues : List P.Queue)
  | groupsChanged (groups : List P.Group)
  | configChanged (config : DaemonConfigSnapshot)
  | rssChanged (sourceId : String) (itemRevision : Nat)
  | pluginsChanged (plugins : List (PluginDto P))
  | componentsChanged (components : List P.Component)
  | webhooksChanged (deliveries : List (WebhookDeliveryDto P))
  | webhooksCleared
  | runtimeStatsChanged (stats : DaemonRuntimeStatsDto)
  | selectionPending (request : SelectionRequestDto P)
  | selectionResolved (requestId : String)
  | taskNotice
  | pluginViewFrame
  | pluginViewClosed
  | pluginToast

/-! ## A projection without payloads -/

/-- Payloads without content. -/
def noPayloads : Payloads where
  TaskDetail := Unit
  SourceBytes := Unit
  Queue := Unit
  Group := Unit
  RssSource := Unit
  PluginDetail := Unit
  Component := Unit
  DeliveryDetail := Unit
  SelectionDetail := Unit
  Session := Unit
  Sync := Unit
  ErrorReason := Unit
  Preferences := Unit
  Gateway := Unit
  DeviceDetail := Unit
  LinkDevice := Unit
  RemoteTask := Unit
  PendingCapture := Unit
  PairingRequest := Unit
  DiscoveredPeer := Unit
  Shell := Unit
  Power := Unit
  Update := Unit
  NotifyDetail := Unit
  NotifyOverview := Unit
  NotifyDelivery := Unit
  ShareDetail := Unit
  ShareRowDetail := Unit
  ReceiverDetail := Unit
  ShareFactsDetail := Unit
  PathKind := Unit
  Ratio := Unit

/-- The projection before anything was loaded (`event.rs:18`). -/
def DaemonSnapshot.initial : DaemonSnapshot noPayloads where
  taskRuntime := SortedMap.empty
  tasks := []
  taskTotal := none
  queueTotal := none
  queues := []
  queuePositions := []
  groups := []
  config := ⟨0, SortedMap.empty⟩
  rssSources := []
  rssItemRevisions := SortedMap.empty
  plugins := []
  components := []
  webhookDeliveries := []
  priority := []
  runtimeStats := ⟨0, 0, 0, 0, none, "", 0⟩
  pendingSelections := []

end Protocol
