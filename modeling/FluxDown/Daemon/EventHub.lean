import FluxDown.Base.Saturating
import FluxDown.Link.Text
import FluxDown.Protocol.Event

/-!
# The event hub of the daemon

Library `Daemon`. The hub keeps the projection and, beside it, samples of the tasks from which it
counts active and pending tasks and measures traffic. Each event goes into both under one
lock. Times are in nanoseconds.
-/

namespace Daemon

open Base Protocol

variable {P : Payloads}

/-! ## Traffic -/

/-- Part of a value (`src/native/daemon/src/event_hub.rs:331–336`). -/
def proportion (value : Int) (part whole : Nat) : Int :=
  let scaled := (value * part).tdiv whole
  if -2 ^ 63 ≤ scaled ∧ scaled ≤ 2 ^ 63 - 1 then scaled else 2 ^ 63 - 1

/-- Length of a bucket in microseconds (`event_hub.rs:272`). -/
def trafficBucketUs : Nat := 100000

/-- Number of buckets (`event_hub.rs:274`). -/
def trafficBuckets : Nat := 40

/-- Buckets that are averaged (`event_hub.rs:276`). -/
def rateWindowBuckets : Nat := 20

/-- Buckets between the window and now (`event_hub.rs:278`). -/
def reportLagBuckets : Nat := 7

/-- Buckets between two rates (`event_hub.rs:280`). -/
def publishPeriodBuckets : Nat := 5

/-- Longest time a difference is spread over (`event_hub.rs:282`). -/
def spreadCapUs : Nat := 1000000

/-- Bytes of a tick (`event_hub.rs:284–294`). -/
structure TrafficBucket where
  tick : Nat := 0
  downloaded : Int := 0
  uploaded : Int := 0
deriving DecidableEq

/-- The bucket holds bytes. -/
def TrafficBucket.hasBytes (bucket : TrafficBucket) : Bool :=
  bucket.downloaded != 0 || bucket.uploaded != 0

/-- What is kept of a task (`event_hub.rs:297–311`). -/
structure TaskSample where
  status : Int
  downloaded : Int
  uploaded : Int
  explicitBaseline : Bool
  transferMeasured : Bool
  lastAt : Option Nat
deriving DecidableEq

/-- The task transfers (`event_hub.rs:327–329`). -/
def isActive (status : Int) : Bool := status == 1 || status == 5

/-- Samples, counters and traffic (`event_hub.rs:314–325`). -/
structure RuntimeAccounting where
  tasks : String → Option TaskSample
  active : Nat
  pending : Nat
  origin : Nat
  buckets : Vector TrafficBucket trafficBuckets
  burstStart : Option Nat
  published : Option (Nat × Int × Int)
  /-- How often a subtraction of a counter was cut off at zero, for statements. -/
  clamps : Nat

namespace RuntimeAccounting

/-- Take a status out of the counters (`event_hub.rs:353–356`). -/
def removeStatus (a : RuntimeAccounting) (status : Int) : RuntimeAccounting :=
  { a with
    active := a.active - (isActive status).toNat
    pending := a.pending - (status == 0).toNat
    clamps := a.clamps + (if a.active < (isActive status).toNat then 1 else 0) +
      if a.pending < (status == 0).toNat then 1 else 0 }

/-- Take a status into the counters (`event_hub.rs:358–361`). -/
def addStatus (a : RuntimeAccounting) (status : Int) : RuntimeAccounting :=
  { a with
    active := min (a.active + (isActive status).toNat) maxU32
    pending := min (a.pending + (status == 0).toNat) maxU32 }

/-- Microseconds since the origin (`event_hub.rs:394–396`). -/
def micros (a : RuntimeAccounting) (time : Nat) : Nat := (time - a.origin) / 1000

/-- The tick of a time (`event_hub.rs:398–400`). -/
def tick (a : RuntimeAccounting) (time : Nat) : Nat := a.micros time / trafficBucketUs

/-- A bucket that can still get into the window holds bytes (`event_hub.rs:402–408`). -/
def recentTraffic (a : RuntimeAccounting) (tick : Nat) : Bool :=
  let horizon := tick - (reportLagBuckets + rateWindowBuckets)
  a.buckets.any fun bucket ↦ bucket.hasBytes && decide (horizon ≤ bucket.tick)

/-- Bytes of a tick go into its bucket (`event_hub.rs:452–468`). -/
def addToBucket (a : RuntimeAccounting) (tick : Nat) (downloaded uploaded : Int) :
    RuntimeAccounting :=
  let slot : Fin trafficBuckets := ⟨tick % trafficBuckets, Nat.mod_lt _ (by decide)⟩
  let bucket := a.buckets[slot]
  if tick < bucket.tick then a
  else
    let bucket := if bucket.tick ≠ tick then { tick := tick } else bucket
    { a with
      buckets := a.buckets.set slot
        { bucket with
          downloaded := saturatingAdd bucket.downloaded downloaded
          uploaded := saturatingAdd bucket.uploaded uploaded } }

/-- Bytes of the ticks from the first to the last one, in proportion to their shares of the time
(`event_hub.rs:433–449`). -/
def spread (a : RuntimeAccounting) (start stop : Nat) (downloaded uploaded : Int) :
    RuntimeAccounting :=
  let first := start / trafficBucketUs
  let last := stop / trafficBucketUs
  ((List.range' first (last + 1 - first)).foldl (fun (a, downloadedLeft, uploadedLeft) tick ↦
    let (down, up) :=
      if tick = last then (downloadedLeft, uploadedLeft)
      else
        let low := max start (tick * trafficBucketUs)
        let high := min stop ((tick + 1) * trafficBucketUs)
        (proportion downloaded (high - low) (stop - start),
          proportion uploaded (high - low) (stop - start))
    (a.addToBucket tick down up, saturatingSub downloadedLeft down, saturatingSub uploadedLeft up))
    (a, downloaded, uploaded)).1

/-- Spread bytes over the time since the last sample (`event_hub.rs:410–450`). -/
def recordTraffic (a : RuntimeAccounting) (downloaded uploaded : Int) (since : Option Nat)
    (now : Nat) : RuntimeAccounting :=
  if downloaded = 0 ∧ uploaded = 0 then a
  else
    let stop := a.micros now
    let start := min (max ((since.map a.micros).getD stop) (stop - spreadCapUs)) stop
    let a :=
      if !a.recentTraffic (stop / trafficBucketUs) then
        { a with burstStart := some (start / trafficBucketUs), published := none }
      else a
    a.spread start stop downloaded uploaded

/-- The starting point of a transfer (`event_hub.rs:363–369`). -/
def transferBaseline (a : RuntimeAccounting) (taskId : String) (downloadedBytes : Int) :
    RuntimeAccounting :=
  { a with
    tasks := Function.update a.tasks taskId ((a.tasks taskId).map fun sample ↦
      { sample with
        downloaded := max downloadedBytes 0
        explicitBaseline := true
        transferMeasured := false }) }

/-- Bytes of the transfer that ends (`event_hub.rs:371–382`). -/
def settleDownload (a : RuntimeAccounting) (taskId : String) (downloadedBytes : Int) (now : Nat) :
    RuntimeAccounting :=
  match a.tasks taskId with
  | none => a
  | some sample =>
    let delta :=
      if sample.transferMeasured then 0
      else max (saturatingSub downloadedBytes sample.downloaded) 0
    { a with
      tasks := Function.update a.tasks taskId (some
        { sample with downloaded := max sample.downloaded downloadedBytes, lastAt := some now })
      }.recordTraffic delta 0 sample.lastAt now

/-- Received bytes of a task (`event_hub.rs:384–392`). -/
def recordTransfer (a : RuntimeAccounting) (taskId : String) (bytes : Int) (now : Nat) :
    RuntimeAccounting :=
  match a.tasks taskId with
  | none => a
  | some sample =>
    { a with
      tasks := Function.update a.tasks taskId (some
        { sample with transferMeasured := true, lastAt := some now })
      }.recordTraffic (max bytes 0) 0 sample.lastAt now

/-- The first sample of a task. -/
def firstSample (task : TaskDto P) (lastAt : Option Nat) : TaskSample where
  status := task.status
  downloaded := max task.downloadedBytes 0
  uploaded := max task.uploadedBytes 0
  explicitBaseline := false
  transferMeasured := false
  lastAt := lastAt

/-- The sample after a row was reported. -/
def reported (sample : TaskSample) (task : TaskDto P) : TaskSample :=
  { sample with
    status := task.status
    downloaded :=
      if sample.explicitBaseline then sample.downloaded
      else max sample.downloaded task.downloadedBytes
    uploaded := max sample.uploaded task.uploadedBytes
    transferMeasured := sample.transferMeasured && isActive task.status }

/-- A row that was changed or added (`event_hub.rs:470–506`). -/
def baseline (a : RuntimeAccounting) (task : TaskDto P) (now : Nat) : RuntimeAccounting :=
  match a.tasks task.taskId with
  | some sample =>
    let started := isActive task.status && !isActive sample.status
    ({ a with
      tasks := Function.update a.tasks task.taskId (some
        { reported sample task with lastAt := if started then some now else sample.lastAt })
      }.removeStatus sample.status).addStatus task.status
  | none =>
    { a with
      tasks := Function.update a.tasks task.taskId (some
        (firstSample task (if isActive task.status then some now else none)))
      }.addStatus task.status

/-- One row of a new table (`event_hub.rs:515–539`). -/
def reconcileTask (a : RuntimeAccounting) (task : TaskDto P) : RuntimeAccounting :=
  { a with
    tasks := Function.update a.tasks task.taskId (some (match a.tasks task.taskId with
      | some sample => reported sample task
      | none => firstSample task none))
    }.addStatus task.status

/-- A new table (`event_hub.rs:508–540`). -/
def reconcile (a : RuntimeAccounting) (tasks : List (TaskDto P)) : RuntimeAccounting :=
  tasks.foldl reconcileTask
    { a with
      tasks := fun id ↦ if id ∈ tasks.map TaskDto.taskId then a.tasks id else none
      active := 0
      pending := 0 }

/-- A task that was deleted (`event_hub.rs:542–546`). -/
def remove (a : RuntimeAccounting) (taskId : String) : RuntimeAccounting :=
  match a.tasks taskId with
  | none => a
  | some sample =>
    { a with tasks := Function.update a.tasks taskId none }.removeStatus sample.status

/-- A progress message (`event_hub.rs:562–604`). -/
def applyProgress (a : RuntimeAccounting) (progress : TaskProgress) (now : Nat) :
    RuntimeAccounting :=
  if progress.deleted then a.remove progress.taskId
  else match a.tasks progress.taskId with
    | none => a
    | some sample =>
      let downloaded :=
        if sample.transferMeasured then 0
        else max (saturatingSub progress.downloadedBytes sample.downloaded) 0
      let uploaded := max (saturatingSub progress.uploadedBytes sample.uploaded) 0
      (({ a with
        tasks := Function.update a.tasks progress.taskId (some
          { sample with
            status := progress.status
            downloaded := max sample.downloaded progress.downloadedBytes
            uploaded := max sample.uploaded progress.uploadedBytes
            transferMeasured := sample.transferMeasured && isActive progress.status
            lastAt := some now })
        }.removeStatus sample.status).addStatus progress.status).recordTraffic downloaded uploaded
          sample.lastAt now

/-- An event goes into the samples (`event_hub.rs:548–607`). -/
def apply (a : RuntimeAccounting) (event : DaemonEvent P) (now : Nat) : RuntimeAccounting :=
  match event with
  | .snapshotReplaced snapshot => a.reconcile snapshot.tasks
  | .engine (.tasksSnapshot tasks) => a.reconcile tasks
  | .taskChanged task => a.baseline task now
  | .tasksChanged tasks => tasks.foldl (fun a task ↦ a.baseline task now) a
  | .taskDeleted taskId => a.remove taskId
  | .tasksDeleted taskIds => taskIds.foldl remove a
  | .engine (.taskProgress progress) => a.applyProgress progress now
  | _ => a

/-- Samples of the rows (`event_hub.rs:338–351`). -/
def new (tasks : List (TaskDto P)) (now : Nat) : RuntimeAccounting :=
  { tasks := fun _ ↦ none
    active := 0
    pending := 0
    origin := now
    buckets := Vector.replicate trafficBuckets {}
    burstStart := none
    published := none
    clamps := 0 : RuntimeAccounting }.reconcile tasks

/-- Rates of the window, computed once in a period (`event_hub.rs:609–651`). -/
def rates (a : RuntimeAccounting) (now : Nat) : RuntimeAccounting × Int × Int :=
  let tick := a.tick now
  let buckets := a.buckets.map fun bucket ↦
    if trafficBuckets ≤ tick - bucket.tick then {} else bucket
  let a := { a with buckets := buckets }
  let period := tick / publishPeriodBuckets
  match a.published.filter fun published ↦ published.1 == period with
  | some (_, downloaded, uploaded) => (a, downloaded, uploaded)
  | none =>
    let stop := tick - reportLagBuckets
    let windowStart := stop - rateWindowBuckets
    let first := (a.burstStart.map fun burst ↦ max burst windowStart).getD windowStart
    let a := if !a.recentTraffic tick then { a with burstStart := none } else a
    if stop - first = 0 then (a, 0, 0)
    else
      let counted := a.buckets.toList.filter fun bucket ↦
        bucket.hasBytes && decide (first ≤ bucket.tick) && decide (bucket.tick < stop)
      let downloaded := counted.foldl (fun sum bucket ↦ saturatingAdd sum bucket.downloaded) 0
      let uploaded := counted.foldl (fun sum bucket ↦ saturatingAdd sum bucket.uploaded) 0
      let perSecond := 1000000 / trafficBucketUs
      let down := proportion downloaded perSecond (stop - first)
      let up := proportion uploaded perSecond (stop - first)
      ({ a with published := some (period, down, up) }, down, up)

end RuntimeAccounting

/-! ## The hub -/

/-- The state under the hub's lock (`event_hub.rs:14–21`); the flag of the timer is left out, it
may fire at any time. -/
structure EventState (P : Payloads) where
  epoch : String
  sequence : Nat
  snapshot : DaemonSnapshot P
  accounting : RuntimeAccounting

/-- What is published when it changes (`event_hub.rs:666–673`). -/
def runtimeMeasurements (stats : DaemonRuntimeStatsDto) : Nat × Nat × Int × Int :=
  (stats.activeTasks, stats.pendingTasks, stats.totalDownloadBps, stats.totalUploadBps)

/-- Bring the counters of the projection up to date (`event_hub.rs:675–691`). -/
def updateRuntimeStats (state : EventState P) (now : Nat) : EventState P :=
  let (accounting, downloaded, uploaded) := state.accounting.rates now
  let stats := state.snapshot.runtimeStats
  let saveDir := (state.snapshot.config.values.get? "default_save_dir").filter fun path ↦
    !path.toList.all Link.isWhitespace && path != stats.saveDir
  { state with
    accounting := accounting
    snapshot :=
      { state.snapshot with
        runtimeStats :=
          { stats with
            activeTasks := state.accounting.active
            pendingTasks := state.accounting.pending
            totalDownloadBps := downloaded
            totalUploadBps := uploaded
            saveDir := saveDir.getD stats.saveDir } } }

namespace EventState

/-- A hub (`event_hub.rs:34–49`). -/
def new (epoch : String) (snapshot : DaemonSnapshot P) (now : Nat) : EventState P :=
  updateRuntimeStats ⟨epoch, 0, snapshot, RuntimeAccounting.new snapshot.tasks now⟩ now

/-- An event goes into the samples and the projection (`event_hub.rs:183–211`); the frame that
is sent is left out. -/
def publishLockedAt (state : EventState P) (event : DaemonEvent P) (now : Nat) : EventState P :=
  let state := updateRuntimeStats
    { state with
      accounting := state.accounting.apply event now
      snapshot := applyDaemonEvent state.snapshot event } now
  { state with sequence := min (state.sequence + 1) maxU64 }

/-- Publish an event and, where they changed, the counters (`event_hub.rs:122–129, 153–181`). -/
def publish (state : EventState P) (event : DaemonEvent P) (now : Nat) :
    EventState P :=
  let saveDir (config : DaemonConfigSnapshot) := config.values.get? "default_save_dir"
  let metadataChanged := match event with
    | .snapshotReplaced snapshot =>
      decide (snapshot.runtimeStats ≠ state.snapshot.runtimeStats) ||
        saveDir snapshot.config != saveDir state.snapshot.config
    | .configChanged config => saveDir config != saveDir state.snapshot.config
    | _ => false
  let isStats := match event with
    | .runtimeStatsChanged _ => true
    | _ => false
  let after := state.publishLockedAt event now
  if !isStats && (metadataChanged ||
      runtimeMeasurements after.snapshot.runtimeStats !=
        runtimeMeasurements state.snapshot.runtimeStats) then
    after.publishLockedAt (.runtimeStatsChanged after.snapshot.runtimeStats) now
  else after

/-- The number of tasks waiting for a retry (`event_hub.rs:136–145`). -/
def setRetryPendingTasks (state : EventState P) (count now : Nat) : EventState P :=
  let stats := state.snapshot.runtimeStats
  if stats.retryPendingTasks = count then state
  else state.publishLockedAt (.runtimeStatsChanged { stats with retryPendingTasks := count }) now

/-- The timer fires (`event_hub.rs:247–254`). -/
def expireLockedAt (state : EventState P) (now : Nat) : EventState P :=
  let after := updateRuntimeStats state now
  if runtimeMeasurements after.snapshot.runtimeStats !=
      runtimeMeasurements state.snapshot.runtimeStats then
    after.publishLockedAt (.runtimeStatsChanged after.snapshot.runtimeStats) now
  else after

end EventState

/-- What happens at the hub. -/
inductive HubOp (P : Payloads) where
  | publish (event : DaemonEvent P) (now : Nat)
  | setRetryPendingTasks (count now : Nat)
  | taskTransferred (taskId : String) (bytes : Int) (now : Nat)
  | taskTransferBaseline (taskId : String) (downloadedBytes : Int)
      (previousDownloadedBytes : Option Int) (now : Nat)
  | expire (now : Nat)

/-- One step of the hub; the transfer events come from the engine
(`event_hub.rs:699–727`). -/
def EventState.step (state : EventState P) : HubOp P → EventState P
  | .publish event now => state.publish event now
  | .setRetryPendingTasks count now => state.setRetryPendingTasks count now
  | .taskTransferred taskId bytes now =>
    { state with accounting := state.accounting.recordTransfer taskId bytes now }
  | .taskTransferBaseline taskId downloadedBytes previousDownloadedBytes now =>
    let accounting := previousDownloadedBytes.elim state.accounting fun previous ↦
      state.accounting.settleDownload taskId previous now
    { state with accounting := accounting.transferBaseline taskId downloadedBytes }
  | .expire now => state.expireLockedAt now

end Daemon
