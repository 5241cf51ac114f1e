import FluxDown.Base.Run
import FluxDown.Engine.RampPolicy

/-!
# Connection quota

Library `Engine`. The event loop of the coordinator as far as it decides how many connections
a task may hold: the ramp tick, which samples throughput and grows, probes, rolls back or
shrinks the quota, and the grading of failures, which lowers it. Worker slots are kept one by
one. What the segments, the paths and the database answer is an input of each event.
-/

namespace Engine.Ramp

open Base

/-- What is known of the server's range support (`segment_coordinator.rs:514–516`). -/
inductive RangeVerdict where
  /-- No response yet. -/
  | unknown
  /-- Ranges are honoured. -/
  | supported
  /-- Ranges are not honoured. -/
  | unsupported
deriving DecidableEq, Repr

/-- What a task run fixes at its start. -/
structure RampConfig where
  /-- Platform of the build. -/
  platform : Platform
  /-- The user left the connection count to the program. -/
  allowHintUncap : Bool
  /-- Scale the domain is known to accept. -/
  domainHint : Option Int
  /-- Hard limit of the request specification. -/
  connectionCap : Option Nat

/-- The initial quota when it came from a hint. -/
def RampConfig.startHint (cfg : RampConfig) : Option Nat := cfg.domainHint.map asUsize

/-- The limit of the request specification, applied (`segment_coordinator.rs:2026–2028`). -/
def RampConfig.limit (cfg : RampConfig) (cap : Nat) : Nat :=
  match cfg.connectionCap with
  | some limit => min cap (max limit 1)
  | none => cap

/-- A shrink under observation. -/
structure ShrinkWatch (F : Type) where
  /-- Quota before the shrink. -/
  preWorkers : Nat
  /-- Throughput that caused it. -/
  shrunkBps : F
  /-- Best throughput since. -/
  bestBps : F
  /-- Full windows since. -/
  windows : Nat

/-- Variables of the event loop that concern the quota (`segment_coordinator.rs:2011–2325`). -/
structure Coordinator (F : Type) where
  /-- The loop has not been left. -/
  running : Bool
  /-- Assignment channel of each worker ever started: open or closed. -/
  slots : List Bool
  /-- Ceiling of the quota. -/
  workerCap : Nat
  /-- The quota. -/
  allowedWorkers : Nat
  /-- Scale that paid off. -/
  beneficialScale : Nat
  /-- One worker at a time. -/
  serialMode : Bool
  /-- Freeze of the ramp. -/
  freeze : FreezeState
  /-- Rejections counted. -/
  rejectStrikes : Nat
  /-- Isolations by segment. -/
  transientRequeues : Int → Nat
  /-- Quota of the last demotion, none before the first. -/
  rejectQuota : Option Nat
  /-- Ceiling before it was lifted. -/
  uncapFloor : Option Nat
  /-- The ceiling is not lifted again. -/
  uncapDisabled : Bool
  /-- A revival is scheduled. -/
  reviveArmed : Bool
  /-- Revivals so far. -/
  revivesUsed : Nat
  /-- The last tick grew the quota. -/
  awaitingRampEval : Bool
  /-- It grew by a probe. -/
  probeWindow : Bool
  /-- Probes of the task. -/
  softProbeTaskUsed : Nat
  /-- Throughput before growing. -/
  preGrowThroughput : F
  /-- Quota before growing. -/
  preGrowWorkers : Nat
  /-- Peak throughput, decaying. -/
  peakThroughput : F
  /-- Consecutive degraded windows. -/
  shrinkStrikes : Nat
  /-- Shrink under observation. -/
  shrinkEval : Option (ShrinkWatch F)
  /-- Shrinking was refuted. -/
  shrinkDisabled : Bool
  /-- Largest scale seen without rejection. -/
  provenScale : Nat
  /-- A worker saw a range request answered in full. -/
  connSensitive : Bool
  /-- New connections are known to be rejected. -/
  reconnectHostile : Bool
  /-- Verdict shared with the workers. -/
  rangeVerdict : RangeVerdict
  /-- Verdict event on its way to the loop. -/
  rangeEvent : Option Bool
  /-- Unexpired connection cap of the domain. -/
  domainCap : Option Int

section State

variable {F : Type}

/-- Live workers. -/
def Coordinator.alive (s : Coordinator F) : Nat := s.slots.count true

/-- Close the assignment channel of a worker. -/
def Coordinator.closeSlot (s : Coordinator F) (worker : Nat) : Coordinator F :=
  { s with slots := s.slots.set worker false }

/-- Start `n` workers. -/
def Coordinator.spawn (s : Coordinator F) (n : Nat) : Coordinator F :=
  { s with slots := s.slots ++ List.replicate n true }

/-- Leave the loop with every channel closed. -/
def Coordinator.stop (s : Coordinator F) : Coordinator F :=
  { s with running := false, slots := s.slots.map fun _ ↦ false }

/-- Learn a connection cap; the lower of two fresh observations counts
(`segment_coordinator.rs:166–187`). -/
def Coordinator.recordDomainConnCap (s : Coordinator F) (cap : Int) : Coordinator F :=
  let cap := max cap 1
  { s with
    domainCap := some (match s.domainCap with
      | some known => min known cap
      | none => cap) }

/-- Ranges are known to be honoured. -/
def Coordinator.rangeOk (s : Coordinator F) : Bool := s.rangeVerdict = .supported

/-- What the segments yield to a loop that starts workers. -/
structure Supply where
  /-- Assignments found and started. -/
  count : Nat
  /-- The change of the next one could not be stored. -/
  dbFails : Bool
deriving DecidableEq, Repr

/-- Start workers up to the quota (`segment_coordinator.rs:3814–3852`). -/
def Coordinator.refill (s : Coordinator F) (supply : Supply) : Coordinator F :=
  let missing := s.allowedWorkers - s.alive
  let s := s.spawn (min supply.count missing)
  if supply.count < missing && supply.dbFails then s.stop else s

end State

/-! ## Start -/

/-- Inputs of a start. -/
structure StartPlan where
  /-- Planned number of segments. -/
  initialSegmentCount : Int
  /-- Unexpired connection cap of the domain. -/
  domainCap : Option Int
  /-- Pending segments. -/
  pendingCount : Nat
  /-- One of them starts at the first byte of the file. -/
  openEnded : Bool
  /-- Range support has not been probed. -/
  sizeIsEstimate : Bool

/-- Ceiling at the start (`segment_coordinator.rs:2008–2040`). -/
def StartPlan.workerCap (plan : StartPlan) (cfg : RampConfig) : Nat :=
  let cap := (max 1 (min plan.initialSegmentCount maxSegments)).toNat
  let cap := match plan.domainCap with
    | some domainCap => min cap (max domainCap 1).toNat
    | none => cap
  cfg.limit (hintUncapCeiling cfg.platform.hintUncapMax cfg.allowHintUncap plan.domainCap
    cfg.domainHint cap)

/-- The loop as it is entered (`segment_coordinator.rs:2046–2325`). -/
def StartPlan.start {F : Type} [Bps F] (plan : StartPlan) (cfg : RampConfig) : Coordinator F :=
  let cap := plan.workerCap cfg
  let allowed := initialAllowedWorkers cap cfg.domainHint
  let workers := min plan.pendingCount allowed
  { running := true
    slots := List.replicate (if plan.openEnded then min workers 1 else workers) true
    workerCap := cap
    allowedWorkers := allowed
    beneficialScale := allowed
    serialMode := false
    freeze := .active
    rejectStrikes := 0
    transientRequeues := fun _ ↦ 0
    rejectQuota := none
    uncapFloor := none
    uncapDisabled := false
    reviveArmed := false
    revivesUsed := 0
    awaitingRampEval := false
    probeWindow := false
    softProbeTaskUsed := 0
    preGrowThroughput := 0.0
    preGrowWorkers := allowed
    peakThroughput := 0.0
    shrinkStrikes := 0
    shrinkEval := none
    shrinkDisabled := false
    provenScale := 0
    connSensitive := false
    reconnectHostile := false
    rangeVerdict := if plan.sizeIsEstimate then .unknown else .supported
    rangeEvent := none
    domainCap := plan.domainCap }

/-! ## Ramp tick -/

/-- What a ramp tick observes. -/
structure TickSample (F : Type) where
  /-- Workers whose task has ended. -/
  finished : List Nat
  /-- The scheduled revival is due. -/
  reviveDue : Bool
  /-- Work for the revived worker. -/
  reviveWork : Supply
  /-- The window is long enough to be measured. -/
  fullWindow : Bool
  /-- Throughput of the window. -/
  throughput : F
  /-- Bytes downloaded. -/
  bytes : Int
  /-- Bytes of the file. -/
  totalBytes : Int
  /-- Every segment is complete. -/
  allDone : Bool
  /-- A cold path asks for one more worker. -/
  exploreWanted : Bool
  /-- Work for that worker. -/
  exploreWork : Supply
  /-- Connections are moving between paths. -/
  migrating : Bool
  /-- A path other than the origin's carried traffic. -/
  alternatesUsed : Bool
  /-- Work up to the quota. -/
  work : Supply
  /-- Work up to the grown quota. -/
  grownWork : Supply

/-- Bytes left to download. -/
def TickSample.remaining {F : Type} (t : TickSample F) : Int := max (t.totalBytes - t.bytes) 0

section Tick

variable {F : Type} [Bps F]

/-- Close the channels of workers that ended (`segment_coordinator.rs:3335–3339`). -/
def Coordinator.reconcile (s : Coordinator F) (finished : List Nat) : Coordinator F :=
  finished.foldl Coordinator.closeSlot s

/-- Start the worker of a due revival (`segment_coordinator.rs:3343–3383`). -/
def Coordinator.revive (s : Coordinator F) (t : TickSample F) : Coordinator F :=
  if s.reviveArmed && t.reviveDue then
    let s := { s with reviveArmed := false }
    if s.alive = 0 then
      if t.reviveWork.dbFails then s.stop else s.spawn (min t.reviveWork.count 1)
    else s
  else s

/-- Count a tick of the cooldown (`segment_coordinator.rs:3464–3471`). -/
def Coordinator.waitSoft (s : Coordinator F) : Coordinator F :=
  match s.awaitingRampEval, s.freeze with
  | false, .soft ticksWaited cooldown attempts =>
    { s with freeze := .soft (satU32 (ticksWaited + 1)) cooldown attempts }
  | _, _ => s

/-- Start one worker beyond the quota for a cold path (`segment_coordinator.rs:3508–3547`). -/
def Coordinator.explore (s : Coordinator F) (t : TickSample F) : Coordinator F :=
  if t.exploreWanted && s.alive ≤ s.allowedWorkers && !t.allDone then
    if t.exploreWork.dbFails then s.stop else s.spawn (min t.exploreWork.count 1)
  else s

/-- Remember the scale the server accepted (`segment_coordinator.rs:3552–3559`). -/
def Coordinator.learnProven (s : Coordinator F) (t : TickSample F) : Coordinator F :=
  if (0.0 : F) < t.throughput && s.rejectStrikes = 0 && !s.serialMode && !s.connSensitive &&
      s.provenScale < s.alive then
    { s with provenScale := s.alive }
  else s

/-- Return to the quota before the last growth. -/
def Coordinator.rollback (s : Coordinator F) : Coordinator F :=
  { s with
    allowedWorkers := max s.preGrowWorkers 1
    beneficialScale := min s.beneficialScale (max s.preGrowWorkers 1) }

/-- Settle a probe (`segment_coordinator.rs:3587–3619`). -/
def Coordinator.settleProbe (s : Coordinator F) (verdict : RampVerdict) : Coordinator F :=
  let attempts := match s.freeze with
    | .soft _ _ attempts => attempts
    | _ => 0
  let cooldown := match s.freeze with
    | .soft _ cooldown _ => cooldown
    | _ => rampSoftProbeCooldownTicks
  let next := softProbeEvalTransition verdict attempts cooldown
  let s := { s with freeze := next.1 }
  if next.2 then s.rollback else { s with beneficialScale := s.allowedWorkers }

/-- Lift the ceiling if the expansion to it paid off (`segment_coordinator.rs:3624–3654`). -/
def Coordinator.uncap (cfg : RampConfig) (s : Coordinator F) (t : TickSample F) :
    Coordinator F :=
  let uncapped := cfg.limit (inTaskUncapCeiling cfg.platform.hintUncapMax
    (cfg.allowHintUncap && !s.uncapDisabled && s.rejectStrikes = 0) s.domainCap s.workerCap
    s.preGrowWorkers s.allowedWorkers s.preGrowThroughput t.throughput t.remaining)
  if s.workerCap < uncapped then
    { s with
      uncapFloor := some (s.uncapFloor.getD s.workerCap)
      workerCap := uncapped }
  else s

/-- Settle an expansion (`segment_coordinator.rs:3621–3711`). -/
def Coordinator.settleExpansion (cfg : RampConfig) (s : Coordinator F) (t : TickSample F) :
    RampVerdict → Coordinator F
  | .improved => Coordinator.uncap cfg { s with beneficialScale := s.allowedWorkers } t
  | .collapse =>
    let s := { s.rollback with freeze := .hard }
    if t.alternatesUsed then s else s.recordDomainConnCap s.allowedWorkers
  | .freeze =>
    let s := if cfg.startHint.any (· ≤ s.preGrowWorkers) then s.rollback else s
    { s with freeze := freezeVerdictNextState s.softProbeTaskUsed }

/-- Evaluate the growth of the last tick (`segment_coordinator.rs:3580–3713`). -/
def Coordinator.evalWindow (cfg : RampConfig) (s : Coordinator F) (t : TickSample F) :
    Coordinator F :=
  if s.awaitingRampEval then
    let verdict := rampVerdict s.preGrowThroughput t.throughput
    let settled := { s with awaitingRampEval := false, probeWindow := false }
    if s.probeWindow then settled.settleProbe verdict else settled.settleExpansion cfg t verdict
  else s

/-- Verify the last shrink; the flag says that it was undone
(`segment_coordinator.rs:3718–3752`). -/
def Coordinator.verifyShrink (s : Coordinator F) (t : TickSample F) (tail : Bool) :
    Coordinator F × Bool :=
  match s.shrinkEval with
  | none => (s, false)
  | some watch =>
    if tail || t.migrating then ({ s with shrinkEval := none }, false)
    else if s.allowedWorkers < s.alive then (s, false)
    else
      let bestBps := max watch.bestBps t.throughput
      let windows := watch.windows + 1
      match shrinkEvalVerdict watch.shrunkBps bestBps windows with
      | .pending =>
        ({ s with
          shrinkEval := some { watch with bestBps := bestBps, windows := windows } }, false)
      | .confirmed => ({ s with shrinkEval := none }, false)
      | .revert =>
        ({ s with
          shrinkEval := none
          shrinkDisabled := true
          allowedWorkers := max (min watch.preWorkers s.workerCap) s.allowedWorkers }, true)

/-- Halve the quota after sustained degradation (`segment_coordinator.rs:3782–3802`). -/
def Coordinator.shrink (s : Coordinator F) (t : TickSample F) : Coordinator F :=
  { s with
    shrinkStrikes := 0
    allowedWorkers := max (s.allowedWorkers / 2) 1
    beneficialScale := min s.beneficialScale (max (s.allowedWorkers / 2) 1)
    shrinkEval := some ⟨s.allowedWorkers, t.throughput, 0.0, 0⟩
    freeze := sustainedShrinkNextState s.freeze s.softProbeTaskUsed }

/-- Compare the window with the peak; the flag says that the quota was halved
(`segment_coordinator.rs:3766–3806`). -/
def Coordinator.watchPeak (s : Coordinator F) (t : TickSample F) (tail : Bool) :
    Coordinator F × Bool :=
  let peak := s.peakThroughput * 0.99
  if peak < t.throughput then
    ({ s with peakThroughput := t.throughput, shrinkStrikes := 0 }, false)
  else
    let s := { s with peakThroughput := peak }
    if !tail && !t.migrating && !s.shrinkDisabled && s.shrinkEval.isNone &&
        shouldShrink t.throughput peak s.allowedWorkers s.workerCap s.alive
          (s.freeze ≠ .active) s.awaitingRampEval then
      if rampShrinkStrikes ≤ s.shrinkStrikes + 1 then (s.shrink t, true)
      else ({ s with shrinkStrikes := s.shrinkStrikes + 1 }, false)
    else ({ s with shrinkStrikes := 0 }, false)

/-- Grow the quota to `quota` and await the effect. -/
def Coordinator.growTo (s : Coordinator F) (t : TickSample F) (quota : Nat) (probe : Bool) :
    Coordinator F :=
  { s with
    preGrowThroughput := t.throughput
    preGrowWorkers := s.allowedWorkers
    awaitingRampEval := true
    probeWindow := probe
    softProbeTaskUsed :=
      if probe then satU32 (s.softProbeTaskUsed + 1) else s.softProbeTaskUsed
    allowedWorkers := quota }

/-- Refill, then grow at most once and refill again (`segment_coordinator.rs:3811–3918`). -/
def Coordinator.grow (s : Coordinator F) (t : TickSample F) (tail shrunk : Bool) :
    Coordinator F :=
  let s := s.refill t.work
  if !s.running || tail || shrunk then s
  else if softProbeReady s.freeze tail s.rangeOk s.serialMode s.connSensitive s.rejectStrikes
      s.alive s.allowedWorkers s.workerCap s.softProbeTaskUsed then
    (s.growTo t (min (s.allowedWorkers + 1) s.workerCap) true).refill t.grownWork
  else if shouldExpand (s.freeze ≠ .active) s.connSensitive s.alive s.allowedWorkers
      s.workerCap shrunk then
    (s.growTo t (min (s.allowedWorkers * 2) s.workerCap) false).refill t.grownWork
  else s

/-- A growth whose effect cannot be told is not evaluated (`segment_coordinator.rs:3573–3579`). -/
def Coordinator.abandonWindow (s : Coordinator F) (t : TickSample F) (tail : Bool) :
    Coordinator F :=
  if tail || t.migrating then { s with awaitingRampEval := false, probeWindow := false } else s

/-- Adapt the quota to the window (`segment_coordinator.rs:3566–3919`). -/
def Coordinator.adapt (cfg : RampConfig) (s : Coordinator F) (t : TickSample F) :
    Coordinator F :=
  let tail := isTail t.remaining s.workerCap t.totalBytes
  let evaluated := (s.abandonWindow t tail).evalWindow cfg t
  let verified := evaluated.verifyShrink t tail
  let watched := verified.1.watchPeak t tail
  watched.1.grow t tail (verified.2 || watched.2)

/-- The loop is left when nobody works on an unfinished task
(`segment_coordinator.rs:3925–3931`). -/
def Coordinator.checkAlive (s : Coordinator F) (t : TickSample F) : Coordinator F :=
  if s.alive = 0 && !s.reviveArmed && !t.allDone then s.stop else s

/-- The tick is in a state to adapt the quota. -/
def Coordinator.mayAdapt (s : Coordinator F) (t : TickSample F) : Bool :=
  s.running && !s.serialMode && !t.allDone && s.rangeOk

/-- The measured part of a tick (`segment_coordinator.rs:3445–3919`). -/
def Coordinator.measure (cfg : RampConfig) (s : Coordinator F) (t : TickSample F) :
    Coordinator F :=
  let s := (s.waitSoft).explore t
  let s := if s.running then s.learnProven t else s
  if s.mayAdapt t then s.adapt cfg t else s

/-- Ramp tick (`segment_coordinator.rs:3326–3932`). -/
def Coordinator.rampTick (cfg : RampConfig) (s : Coordinator F) (t : TickSample F) :
    Coordinator F :=
  let s := (s.reconcile t.finished).revive t
  if !s.running then s
  else
    let s := if t.fullWindow then s.measure cfg t
      else if s.mayAdapt t then s.refill t.work else s
    if s.running then s.checkAlive t else s

end Tick

/-! ## Worker events -/

/-- Errors a worker reports, as far as they are told apart (`downloader.rs:126–137`,
`segment_coordinator.rs:5340–5360`). -/
inductive DownloadError where
  /-- The server names a larger file. -/
  | trueSizeLarger
  /-- The CDN node is to blame. -/
  | cdnNodeFailed
  /-- A range request was answered in full. -/
  | rangeNotSupported
  /-- An HTTP error status. -/
  | status (code : Nat)
  /-- Local input or output. -/
  | io
  /-- The database. -/
  | db
  /-- Anything else. -/
  | other
deriving DecidableEq, Repr

/-- 403 or 429 (`downloader.rs:126–137`). -/
def isServerRejection (error : DownloadError) : Bool := error = .status 403 || error = .status 429

/-- A failed segment and what the loop finds when it handles it. -/
structure Failure where
  /-- Reporting worker. -/
  worker : Nat
  /-- Its segment. -/
  segIndex : Int
  /-- The error. -/
  error : DownloadError
  /-- The text of the error reads as transient. -/
  retriable : Bool
  /-- Bytes have been downloaded. -/
  anyData : Bool
  /-- Another segment is active. -/
  otherInFlight : Bool
  /-- A verified response is being read. -/
  activeResponse : Bool
  /-- A segment is active once the failure is handled. -/
  anyActive : Bool
  /-- Every segment is complete once the failure is handled. -/
  allDone : Bool
  /-- The worker got another range. -/
  redispatched : Bool
  /-- Pending segments were merged into the open stream. -/
  absorbed : Bool
  /-- Growing the file or storing a change failed. -/
  broken : Bool

/-- Rejection of a connection: 403, 429 or 400 (`segment_coordinator.rs:2893–2895`). -/
def Failure.connRejection (f : Failure) : Bool :=
  isServerRejection f.error || f.error = .status 400

/-- A full answer although ranges worked before (`segment_coordinator.rs:2890–2892`). -/
def Failure.transientRange (f : Failure) : Bool := f.error = .rangeNotSupported && f.anyData

/-- What a finished or preempted worker leaves behind. -/
structure Handover where
  /-- The worker. -/
  worker : Nat
  /-- Another segment is active. -/
  otherActive : Bool
  /-- There is work for the worker. -/
  workFound : Bool
  /-- Every segment is complete. -/
  allDone : Bool
  /-- Storing a change failed. -/
  broken : Bool

/-- How a failure is handled. -/
inductive FailureArm where
  /-- Give the worker another range. -/
  | redispatch
  /-- Retire the worker, requeue the segment. -/
  | isolate
  /-- Revive one connection later. -/
  | revive
  /-- Lower the quota. -/
  | degrade
  /-- Stop the task. -/
  | fatal
deriving DecidableEq, Repr

/-- Isolations of one segment (`segment_coordinator.rs:970`). -/
def segmentTransientRequeueMax : Nat := 3

/-- Revivals of one task (`segment_coordinator.rs:973`). -/
def allRejectedReviveMax : Nat := 3

section Events

variable {F : Type}

/-- A worker is done (`segment_coordinator.rs:2353–2528`). -/
def Coordinator.handleDone (s : Coordinator F) (h : Handover) : Coordinator F :=
  let next := h.workFound && (if s.serialMode then !h.otherActive else s.alive ≤ s.allowedWorkers)
  if h.broken then s.stop
  else
    let s := if next then s else s.closeSlot h.worker
    if h.allDone then s.stop else s

/-- A worker was preempted (`segment_coordinator.rs:3119–3188`). -/
def Coordinator.handlePreempted (s : Coordinator F) (h : Handover) : Coordinator F :=
  let next := h.workFound && (if s.serialMode then !h.otherActive
    else !(0 < s.rejectStrikes && s.allowedWorkers < s.alive))
  if h.allDone || h.broken then s.stop
  else if next then s else s.closeSlot h.worker

/-- The arm that handles a failure (`segment_coordinator.rs:2534–3116`). -/
def Coordinator.failureArm (s : Coordinator F) (f : Failure) : FailureArm :=
  if f.error = .trueSizeLarger || f.error = .cdnNodeFailed then .redispatch
  else if !s.serialMode && !s.reconnectHostile && s.rangeOk && !f.connRejection &&
      f.activeResponse && f.error ≠ .io && f.error ≠ .db && f.retriable &&
      s.transientRequeues f.segIndex < segmentTransientRequeueMax then .isolate
  else if f.error = .status 429 && f.anyData && !f.otherInFlight &&
      s.revivesUsed < allRejectedReviveMax then .revive
  else if f.connRejection && f.otherInFlight || f.transientRange then .degrade
  else .fatal

/-- The rejected connection is one the last demotion left to drain
(`segment_coordinator.rs:2943–2944`). -/
def Coordinator.sheddingExcess (s : Coordinator F) (f : Failure) : Bool :=
  !f.transientRange && !s.serialMode && s.rejectQuota.any (· < s.alive)

/-- The ceiling to return to when the task overshot it (`segment_coordinator.rs:2948–2950`). -/
def Coordinator.overshootFloor (s : Coordinator F) (f : Failure) : Option Nat :=
  s.uncapFloor.filter fun floor ↦
    !s.sheddingExcess f && !f.transientRange && !s.serialMode && floor < s.alive

/-- Count the rejection and freeze the ramp for good (`segment_coordinator.rs:2951–2956`). -/
def Coordinator.strike (s : Coordinator F) (f : Failure) : Coordinator F :=
  { s with
    rejectStrikes := if !s.sheddingExcess f && (s.overshootFloor f).isNone then
      s.rejectStrikes + 1 else s.rejectStrikes
    freeze := .hard
    awaitingRampEval := false
    probeWindow := false }

/-- Lower the quota after a rejection (`segment_coordinator.rs:2922–3020`). -/
def Coordinator.demote (s : Coordinator F) (f : Failure) : Coordinator F :=
  let canLearn := isServerRejection f.error && f.activeResponse
  let struck := s.strike f
  match s.overshootFloor f with
  | some floor =>
    { struck with
      workerCap := floor
      allowedWorkers := floor
      rejectQuota := some floor
      uncapFloor := none
      uncapDisabled := true }
  | none =>
    if s.sheddingExcess f then struck
    else if !s.serialMode && struck.rejectStrikes = 1 && 2 < s.alive then
      let quota := max (s.alive / 2) 1
      let halved := { struck with allowedWorkers := quota, rejectQuota := some quota }
      if canLearn then halved.recordDomainConnCap quota else halved
    else if !s.serialMode then
      let serial := { struck with serialMode := true }
      if canLearn then serial.recordDomainConnCap 1 else serial
    else struck

/-- Demote, retire the failed worker, give up without any other
(`segment_coordinator.rs:2917–3087`). -/
def Coordinator.degrade (s : Coordinator F) (f : Failure) : Coordinator F :=
  let s := s.demote f
  let s := { s with reconnectHostile := s.reconnectHostile || f.absorbed }
  let s := s.closeSlot f.worker
  if s.alive = 0 && !f.anyActive && !f.allDone then s.stop else s

/-- A worker failed (`segment_coordinator.rs:2530–3117`). -/
def Coordinator.handleFailed (s : Coordinator F) (f : Failure) : Coordinator F :=
  match s.failureArm f with
  | .redispatch =>
    if f.broken then s.stop else if f.redispatched then s else s.closeSlot f.worker
  | .isolate =>
    let s := { s with
      transientRequeues := Function.update s.transientRequeues f.segIndex
        (s.transientRequeues f.segIndex + 1) }
    if f.allDone then s.stop else s.closeSlot f.worker
  | .revive =>
    { s.closeSlot f.worker with
      revivesUsed := s.revivesUsed + 1
      serialMode := true
      freeze := .hard
      awaitingRampEval := false
      probeWindow := false
      reviveArmed := true }
  | .degrade => s.degrade f
  | .fatal => s.stop

/-- The verdict of the first response arrives (`segment_coordinator.rs:3190–3232`). -/
def Coordinator.handleRangeVerdict (s : Coordinator F) : Coordinator F :=
  match s.rangeEvent with
  | some true => { s with rangeEvent := none }
  | some false =>
    { s with
      rangeEvent := none
      freeze := .hard
      connSensitive := true
      reconnectHostile := true }
  | none => s

/-- A worker settles the verdict with its first response (`segment_coordinator.rs:5823–5849`). -/
def Coordinator.learnRange (s : Coordinator F) (supportsRange : Bool) : Coordinator F :=
  if s.rangeVerdict = .unknown then
    { s with
      rangeVerdict := if supportsRange then .supported else .unsupported
      rangeEvent := some supportsRange }
  else s

end Events

/-! ## Runs -/

/-- What can happen to the loop: its own events, the steps of workers it observes through
shared state, and other tasks of the domain. -/
inductive Op (F : Type) where
  /-- The user cancels. -/
  | cancel
  /-- The event channel closes. -/
  | channelClosed
  /-- A worker finished its segment. -/
  | done (h : Handover)
  /-- A worker failed. -/
  | failed (f : Failure)
  /-- A worker was preempted. -/
  | preempted (h : Handover)
  /-- The range verdict arrives. -/
  | rangeVerdict
  /-- A ramp tick. -/
  | tick (t : TickSample F)
  /-- A worker settles the range verdict. -/
  | learnRange (supportsRange : Bool)
  /-- A worker latches connection sensitivity. -/
  | sensed
  /-- The domain's cap is recorded elsewhere or expires. -/
  | domainCap (cap : Option Int)

variable {F : Type} [Bps F]

/-- Handle one event of a loop that has not been left. -/
def Coordinator.handle (cfg : RampConfig) (s : Coordinator F) : Op F → Coordinator F
  | .cancel => s.stop
  | .channelClosed => { s with running := false }
  | .done h => s.handleDone h
  | .failed f => s.handleFailed f
  | .preempted h => s.handlePreempted h
  | .rangeVerdict => s.handleRangeVerdict
  | .tick t => s.rampTick cfg t
  | .learnRange supportsRange => s.learnRange supportsRange
  | .sensed => { s with connSensitive := true }
  | .domainCap cap => { s with domainCap := cap }

/-- One step of the loop (`segment_coordinator.rs:2333–3976`). -/
def Coordinator.step (cfg : RampConfig) (s : Coordinator F) (op : Op F) : Coordinator F :=
  if s.running then s.handle cfg op else s

/-! ## Specification -/

/-- A failure is a rejection: of the connection, or a full answer in spite of a range. -/
def Failure.IsRejection (f : Failure) : Prop := f.connRejection ∨ f.transientRange

/-- The rejections of a step find a quota they can lower. An overshoot is rolled back to a
ceiling no higher than the quota. A first strike by a full answer comes, while connections
still drain from an earlier demotion, when no more than twice the quota and one are left. -/
def Op.Sheds (s : Coordinator F) : Op F → Prop
  | .failed f => s.failureArm f = .degrade →
    (∀ floor ∈ s.overshootFloor f, floor ≤ s.allowedWorkers) ∧
      (f.transientRange → s.serialMode = false → s.rejectStrikes = 0 →
        s.rejectQuota.any (· < s.alive) → s.alive ≤ 2 * s.allowedWorkers + 1)
  | _ => True

instance (s : Coordinator F) : ∀ op : Op F, Decidable (op.Sheds s)
  | .failed f => inferInstanceAs (Decidable (s.failureArm f = .degrade →
    (∀ floor ∈ s.overshootFloor f, floor ≤ s.allowedWorkers) ∧
      (f.transientRange → s.serialMode = false → s.rejectStrikes = 0 →
        s.rejectQuota.any (· < s.alive) → s.alive ≤ 2 * s.allowedWorkers + 1)))
  | .cancel | .channelClosed | .done _ | .preempted _ | .rangeVerdict | .tick _ | .learnRange _
  | .sensed | .domainCap _ => inferInstanceAs (Decidable True)

end Engine.Ramp
