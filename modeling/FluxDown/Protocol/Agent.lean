import FluxDown.Protocol.Event

/-!
# Agent projection and event frames

Library `Protocol`. The agent's projection contains the daemon's beside the agent's own
state, its events forward the daemon's beside changes of that state. A service event is of
either kind; a frame gives it a place in the stream of its service, and a client judges each
frame by its cursor before it applies the event.
-/

namespace Protocol

open Base

/-! ## The agent's projection -/

/-- Stages of the connection to the cloud (`src/native/protocol/src/agent.rs:12–18`). -/
inductive CloudConnectionState where
  | disconnected
  | connecting
  | connected
  | reconnecting
deriving DecidableEq

/-- State of the connection to the cloud (`agent.rs:24–30`). -/
structure CloudConnectionDto (P : Payloads) where
  state : CloudConnectionState
  lastError : Option String
  lastErrorReason : Option P.ErrorReason

/-- The connection before it was first made. -/
def CloudConnectionDto.default (P : Payloads) : CloudConnectionDto P := ⟨.disconnected, none, none⟩

/-- A device of the account (`agent.rs:230–252`). -/
structure CloudDevice (P : Payloads) where
  isOnline : Bool
  isCurrent : Bool
  detail : P.DeviceDetail

/-- State of cloud notifications (`src/native/protocol/src/cloud_notify.rs:49–82`). -/
structure CloudNotifyStateDto (P : Payloads) where
  overview : Option P.NotifyOverview
  loading : Bool
  lastErrorReason : Option P.ErrorReason
  updatedAtUnixMs : Option Int
  recentDeliveries : List P.NotifyDelivery
  recentNextCursor : Option String
  detail : P.NotifyDetail

/-- A receiver of a share (`src/native/protocol/src/share.rs:298–317`). -/
structure ShareReceiverDto (P : Payloads) where
  sessionId : String
  pathKind : P.PathKind
  rateBps : Nat
  bytes : Nat
  progress : P.Ratio
  detail : P.ReceiverDetail

/-- A share (`share.rs:323–372`). -/
structure ShareDto (P : Payloads) where
  activeReceivers : List (ShareReceiverDto P)
  detail : P.ShareRowDetail

/-- What a received task has to do with shares (`share.rs:579–605`). -/
structure ShareTaskFactsDto (P : Payloads) where
  pathKind : P.PathKind
  sessionId : Option String
  detail : P.ShareFactsDetail

/-- State of shares (`share.rs:757–796`). -/
structure ShareStateDto (P : Payloads) where
  shares : List (ShareDto P)
  taskFacts : SortedMap String (ShareTaskFactsDto P)
  detail : P.ShareDetail

/-- Progress of a share session (`share.rs:824–833`). -/
structure ShareProgressDto (P : Payloads) where
  sessionId : String
  pathKind : P.PathKind
  rateBps : Nat
  bytes : Nat
  progress : P.Ratio

/-- The projection of the agent (`src/native/protocol/src/event.rs:349–381`). -/
structure AgentSnapshot (P : Payloads) where
  daemon : DaemonSnapshot P
  daemonConnected : Bool
  session : Option P.Session
  sync : P.Sync
  cloudConnection : CloudConnectionDto P
  preferences : P.Preferences
  gateway : P.Gateway
  cloudDevices : List (CloudDevice P)
  linkedDevices : List P.LinkDevice
  remoteTasks : List P.RemoteTask
  pendingCaptures : List P.PendingCapture
  linkPairingRequests : List P.PairingRequest
  linkDiscovered : List P.DiscoveredPeer
  shell : P.Shell
  power : P.Power
  update : P.Update
  cloudNotify : CloudNotifyStateDto P
  share : ShareStateDto P

/-- Events of the agent (`event.rs:517–553`). -/
inductive AgentEvent (P : Payloads) where
  | daemon (event : DaemonEvent P)
  | daemonSnapshotReplaced (snapshot : DaemonSnapshot P)
  | daemonConnectionChanged (connected : Bool)
  | sessionChanged (session : Option P.Session)
  | syncChanged (sync : P.Sync)
  | cloudConnectionChanged (connection : CloudConnectionDto P)
  | preferencesChanged (preferences : P.Preferences)
  | gatewayChanged (gateway : P.Gateway)
  | cloudDevicesChanged (devices : List (CloudDevice P))
  | linkedDevicesChanged (devices : List P.LinkDevice)
  | linkPairingRequestsChanged (requests : List P.PairingRequest)
  | linkDiscoveredChanged (peers : List P.DiscoveredPeer)
  | remoteTasksChanged (tasks : List P.RemoteTask)
  | pendingCapturesChanged (captures : List P.PendingCapture)
  | shellChanged (shell : P.Shell)
  | powerChanged (power : P.Power)
  | updateChanged (update : P.Update)
  | cloudNotifyChanged (state : CloudNotifyStateDto P)
  | captureTasksStarted
  | captureTasksResumed
  | sessionRevoked
  | shareChanged (state : ShareStateDto P)
  | shareProgress (progress : ShareProgressDto P)

/-- Body of a frame (`event.rs:559–562`). -/
inductive ServiceEvent (P : Payloads) where
  | daemon (event : DaemonEvent P)
  | agent (event : AgentEvent P)

/-- A frame of the stream (`event.rs:656–662`). -/
structure EventFrame (P : Payloads) where
  epoch : String
  sequence : Nat
  previous : Option Nat
  event : ServiceEvent P

/-- The projection before anything was loaded (`event.rs:346`). -/
def AgentSnapshot.initial : AgentSnapshot noPayloads where
  daemon := DaemonSnapshot.initial
  daemonConnected := false
  session := none
  sync := ()
  cloudConnection := CloudConnectionDto.default noPayloads
  preferences := ()
  gateway := ()
  cloudDevices := []
  linkedDevices := []
  remoteTasks := []
  pendingCaptures := []
  linkPairingRequests := []
  linkDiscovered := []
  shell := ()
  power := ()
  update := ()
  cloudNotify := ⟨none, false, none, none, [], none, ()⟩
  share := ⟨[], SortedMap.empty, ()⟩

variable {P : Payloads}

/-! ## Application -/

/-- A receiver after progress of its session (`share.rs:802–811`). -/
def ShareProgressDto.refresh (progress : ShareProgressDto P) (receiver : ShareReceiverDto P) :
    ShareReceiverDto P :=
  if receiver.sessionId = progress.sessionId then
    { receiver with
      pathKind := progress.pathKind
      rateBps := progress.rateBps
      bytes := progress.bytes
      progress := progress.progress }
  else receiver

/-- Facts of a task after progress of its session (`share.rs:812–816`). -/
def ShareProgressDto.refreshFacts (progress : ShareProgressDto P) (facts : ShareTaskFactsDto P) :
    ShareTaskFactsDto P :=
  if facts.sessionId = some progress.sessionId then { facts with pathKind := progress.pathKind }
  else facts

/-- Take progress of a session (`share.rs:801–817`). -/
def ShareStateDto.applyProgress (state : ShareStateDto P) (progress : ShareProgressDto P) :
    ShareStateDto P :=
  { state with
    shares := state.shares.map fun share ↦
      { share with activeReceivers := share.activeReceivers.map progress.refresh }
    taskFacts := state.taskFacts.mapValues fun _ facts ↦ progress.refreshFacts facts }

/-- Reduce an event of the agent (`event.rs:752–811`). -/
def applyAgentEvent (snapshot : AgentSnapshot P) : AgentEvent P → AgentSnapshot P
  | .daemon event => { snapshot with daemon := applyDaemonEvent snapshot.daemon event }
  | .daemonSnapshotReplaced daemon => { snapshot with daemon := daemon }
  | .daemonConnectionChanged connected =>
    { snapshot with
      daemonConnected := connected
      daemon :=
        if connected then snapshot.daemon
        else { snapshot.daemon with taskRuntime := SortedMap.empty } }
  | .sessionChanged (some session) => { snapshot with session := some session }
  | .sessionChanged none =>
    { snapshot with
      session := none
      cloudDevices := []
      remoteTasks := []
      cloudConnection := CloudConnectionDto.default P
      cloudNotify :=
        { snapshot.cloudNotify with
          overview := none
          loading := false
          lastErrorReason := none
          updatedAtUnixMs := none
          recentDeliveries := []
          recentNextCursor := none } }
  | .syncChanged sync => { snapshot with sync := sync }
  | .cloudConnectionChanged connection =>
    { snapshot with
      cloudConnection := connection
      cloudDevices :=
        if connection.state ≠ .connected then
          snapshot.cloudDevices.map fun device ↦
            if device.isCurrent then { device with isOnline := false } else device
        else snapshot.cloudDevices }
  | .preferencesChanged preferences => { snapshot with preferences := preferences }
  | .gatewayChanged gateway => { snapshot with gateway := gateway }
  | .cloudDevicesChanged devices => { snapshot with cloudDevices := devices }
  | .linkedDevicesChanged devices => { snapshot with linkedDevices := devices }
  | .linkPairingRequestsChanged requests => { snapshot with linkPairingRequests := requests }
  | .linkDiscoveredChanged peers => { snapshot with linkDiscovered := peers }
  | .remoteTasksChanged tasks => { snapshot with remoteTasks := tasks }
  | .pendingCapturesChanged captures => { snapshot with pendingCaptures := captures }
  | .shellChanged shell => { snapshot with shell := shell }
  | .powerChanged power => { snapshot with power := power }
  | .updateChanged update => { snapshot with update := update }
  | .cloudNotifyChanged state => { snapshot with cloudNotify := state }
  | .shareChanged state => { snapshot with share := state }
  | .shareProgress progress => { snapshot with share := snapshot.share.applyProgress progress }
  | .captureTasksStarted | .captureTasksResumed | .sessionRevoked => snapshot

/-- Take a service event: an agent's projection takes both kinds, a daemon's events concern
the daemon part alone. -/
def applyServiceEvent (snapshot : AgentSnapshot P) : ServiceEvent P → AgentSnapshot P
  | .daemon event => { snapshot with daemon := applyDaemonEvent snapshot.daemon event }
  | .agent event => applyAgentEvent snapshot event

/-- The event of the daemon that a service event carries
(`src/native/protocol/src/coalesce.rs:163–175`). -/
def ServiceEvent.daemonEvent : ServiceEvent P → Option (DaemonEvent P)
  | .daemon event | .agent (.daemon event) => some event
  | .agent _ => none

/-! ## Frames -/

/-- The sequence number after which the frame covers the stream (`event.rs:664–671`). -/
def EventFrame.coversFrom (frame : EventFrame P) : Nat :=
  frame.previous.getD (frame.sequence - 1)

/-- Take the event of a frame. -/
def applyFrame (snapshot : AgentSnapshot P) (frame : EventFrame P) : AgentSnapshot P :=
  applyServiceEvent snapshot frame.event

/-- A client's verdict on a frame (`event.rs:675–682`). -/
inductive FrameVerdict where
  | accept
  | skip
  | resync
deriving DecidableEq

/-- Judge a frame by the cursor (`event.rs:690–702`). -/
def judgeFrame (epoch : String) (cursor : Nat) (frame : EventFrame P) : FrameVerdict :=
  if frame.epoch ≠ epoch then .resync
  else if frame.sequence ≤ cursor then .skip
  else if frame.coversFrom ≤ cursor then .accept
  else .resync

/-- A client at a cursor takes a stream of frames; nothing where one asks it to start over. -/
def replay (epoch : String) (snapshot : AgentSnapshot P) (cursor : Nat) :
    List (EventFrame P) → Option (AgentSnapshot P)
  | [] => some snapshot
  | frame :: frames => match judgeFrame epoch cursor frame with
    | .accept => replay epoch (applyFrame snapshot frame) frame.sequence frames
    | .skip => replay epoch snapshot cursor frames
    | .resync => none

end Protocol
