import FluxDown.Engine.Layout

/-!
# Segment transfer

Library `Engine`. The protocol between the coordinator and its workers. Workers write bytes,
publish their progress in the shared segment states and report events; the coordinator owns the
layout, reads published progress, publishes boundaries, hands out assignments and handles
events in arrival order. Every await point of either side separates two actions, and a run is
any interleaving of actions; an action that is not enabled changes nothing. Worker identities
of events are left out: any idle worker may take the next assignment.
-/

namespace Engine

open Base

/-- A segment as published to workers (`src/native/engine/src/downloader.rs:343–350`). -/
structure SegmentProgressInfo where
  /-- First byte of the range. -/
  startByte : Int
  /-- Last byte of the range. -/
  endByte : Int
  /-- Progress published by the worker holding the segment. -/
  downloadedBytes : Int
deriving DecidableEq, Repr

/-- The shared segment states, by segment index. -/
abbrev SegStates := SortedMap Int SegmentProgressInfo

/-- Why a segment attempt failed, as far as the event loop tells the reasons apart. -/
inductive FailureKind where
  /-- The server reports a larger file. -/
  | trueSizeLarger (reportedTotal : Int)
  /-- A pinned node failed. -/
  | cdnNodeFailed
  /-- Any other error. -/
  | other
deriving DecidableEq, Repr

/-- What a worker reports (`segment_coordinator.rs:1249–1280`). -/
inductive WorkerEvent where
  /-- The segment attempt returned with this many bytes. -/
  | done (segIndex downloadedBytes : Int)
  /-- The segment attempt failed. -/
  | failed (segIndex : Int) (error : FailureKind)
  /-- The segment attempt was preempted. -/
  | preempted (segIndex : Int)
deriving DecidableEq, Repr

/-- A worker inside `do_segment` (`segment_coordinator.rs:6233–6270`). -/
structure Worker where
  /-- Segment being downloaded. -/
  segIndex : Int
  /-- First byte of the segment. -/
  segStart : Int
  /-- Bytes of the segment on disk, relative to `segStart`. -/
  segDownloaded : Int
  /-- The end byte last read from the shared states. -/
  effectiveEnd : Int
  /-- Last byte of the request window, if requests are windowed. -/
  requestEnd : Option Int
deriving DecidableEq, Repr

/-- Last byte the request may write (`segment_coordinator.rs:5695–5701`). -/
def Worker.writeLimit (w : Worker) : Int :=
  match w.requestEnd with
  | some requestEnd => min w.effectiveEnd requestEnd
  | none => w.effectiveEnd

/-- Bytes the request may still write (`segment_coordinator.rs:6338–6339`). -/
def Worker.budget (w : Worker) : Int :=
  max (w.writeLimit - (w.segStart + w.segDownloaded) + 1) 0

/-- A worker starting on an assignment (`segment_coordinator.rs:5684–5702`). -/
def Worker.start (assignment : WorkerAssignment) (windowCap : Option Int) : Worker where
  segIndex := assignment.segIndex
  segStart := assignment.segStart
  segDownloaded := assignment.actualStart - assignment.segStart
  effectiveEnd := assignment.segEnd
  requestEnd := windowCap.map fun cap ↦ min assignment.segEnd (assignment.actualStart + cap - 1)

/-- The next attempt at the segment: another window, or a retry from recorded progress
(`segment_coordinator.rs:5449–5471`, `5601–5613`). -/
def Worker.retry (w : Worker) (n segEnd : Int) (windowCap : Option Int) : Worker where
  segIndex := w.segIndex
  segStart := w.segStart
  segDownloaded := n
  effectiveEnd := segEnd
  requestEnd := windowCap.map fun cap ↦ min segEnd (w.segStart + n + cap - 1)

/-- Progress of the event loop. -/
inductive Phase where
  /-- The event loop runs. -/
  | running
  /-- The event loop ended without an error. -/
  | exited
  /-- The download succeeded; these rows were flushed. -/
  | ok (flushed : List (Int × Int))
  /-- The download failed. -/
  | failed
deriving DecidableEq, Repr

/-- State of one coordinated download. -/
structure Transfer where
  /-- The coordinator's layout. -/
  layout : Layout
  /-- The shared segment states. -/
  segStates : SegStates
  /-- Work found and not handed out yet. -/
  nextWork : Option NextWork
  /-- Busy workers. -/
  workers : SortedMap Nat Worker
  /-- Reported events in arrival order. -/
  events : List WorkerEvent
  /-- Every range a worker has written. -/
  written : List Span
  /-- Progress of the event loop. -/
  phase : Phase

/-- What the coordinator decides about a failure that is neither a size report nor a node
failure. -/
inductive FailureVerdict where
  /-- Isolate the segment with its published progress (`segment_coordinator.rs:2822–2869`). -/
  | isolate
  /-- Put the segment back as it is (`segment_coordinator.rs:2912`, `3023`, `3097`). -/
  | requeue
  /-- Fail the download. -/
  | fatal
deriving DecidableEq, Repr

/-- Actions of the coordinator. -/
inductive CoordinatorAction where
  /-- Read the published progress. -/
  | sync
  /-- Find work, splitting if needed. -/
  | findNextWork (minSplit : Int) (cost : SplitCost)
  /-- Find pending work only. -/
  | findNextPendingOnly
  /-- Split for an idle worker. -/
  | trySplitLargest (minSplit : Int) (cost : SplitCost)
  /-- Split ahead of demand. -/
  | tryProactiveSplit (minSplit : Int) (cost : SplitCost)
  /-- Publish the boundaries of the layout. -/
  | rebuildSegStates
  /-- Hand the found work to idle worker `w`. -/
  | dispatch (w : Nat) (windowCap : Option Int)
  /-- The found work could not be sent. -/
  | reclaim
  /-- Absorb pending segments into the open stream. -/
  | absorb (openEndedStreaming : Option Int) (persisted : Bool)
  /-- Handle the oldest event. -/
  | handleEvent (verdict : FailureVerdict) (preallocated : Bool)
  /-- Leave the event loop. -/
  | exitLoop
  /-- Verify and flush after the loop. -/
  | verify

/-- Actions of a worker. -/
inductive WorkerAction where
  /-- Read the end byte of the segment from the shared states. -/
  | readEnd
  /-- Write `n` bytes at the current position. -/
  | write (n : Int)
  /-- Publish `n` bytes of progress. -/
  | publishProgress (n : Int)
  /-- Start a new attempt from `n` bytes up to `segEnd`. -/
  | resume (n segEnd : Int) (windowCap : Option Int)
  /-- Report the segment done with `n` bytes. -/
  | finish (n : Int)
  /-- Report a failure. -/
  | fail (error : FailureKind)
  /-- Report a preemption. -/
  | preempt

/-- One action of the system. -/
inductive TransferAction where
  /-- The coordinator acts. -/
  | coordinator (a : CoordinatorAction)
  /-- Worker `w` acts. -/
  | worker (w : Nat) (a : WorkerAction)

/-! ## Shared states -/

/-- The states the layout would publish (`segment_coordinator.rs:4850–4861`). -/
def buildSegStateVec (segments : SegmentMap) : SegStates :=
  segments.mapValues fun _ s ↦
    { startByte := s.startByte, endByte := s.endByte, downloadedBytes := s.downloadedBytes }

/-- Publish the layout's boundaries and keep the progress of segments already published
(`segment_coordinator.rs:4880–4899`). -/
def rebuildSegStates (segments : SegmentMap) (states : SegStates) : SegStates :=
  (buildSegStateVec segments).mapValues fun k info ↦
    match states.get? k with
    | some existing => { info with downloadedBytes := existing.downloadedBytes }
    | none => info

/-- Publish a worker's progress (`segment_coordinator.rs:6592–6604`). -/
def updateSegState (states : SegStates) (segIndex downloadedBytes : Int) : SegStates :=
  states.modify segIndex fun info ↦ { info with downloadedBytes := downloadedBytes }

/-- The published progress by index. -/
def Transfer.published (t : Transfer) : List (Int × Int) :=
  t.segStates.entries.map fun e ↦ (e.1, e.2.downloadedBytes)

/-! ## Actions of the coordinator -/

/-- Apply one mutation of the layout. -/
def Transfer.change (t : Transfer) (op : LayoutOp) : Transfer :=
  { t with layout := t.layout.step op }

/-- Apply a mutation that finds work. -/
def Transfer.assign (t : Transfer) (op : LayoutOp) (work : Option NextWork) : Transfer :=
  { t.change op with nextWork := work }

/-- Handle one event (`segment_coordinator.rs:2356–2644`, `2736–2740`, `2845–2857`,
`3119–3131`). -/
def Transfer.handle (t : Transfer) (verdict : FailureVerdict) (preallocated : Bool) :
    WorkerEvent → Transfer
  | .done segIndex downloadedBytes => t.change (.done segIndex downloadedBytes)
  | .preempted segIndex =>
    (t.change (.syncDownloaded t.published)).change (.preempted segIndex)
  | .failed segIndex (.trueSizeLarger reportedTotal) =>
    t.change (.trueSizeLarger segIndex reportedTotal preallocated)
  | .failed segIndex .cdnNodeFailed => t.change (.failed segIndex)
  | .failed segIndex .other => match verdict with
    | .isolate => (t.change (.syncDownloaded t.published)).change (.preempted segIndex)
    | .requeue => t.change (.failed segIndex)
    | .fatal => { t with phase := .failed }

/-- Every segment is completed (`segment_coordinator.rs:4831–4833`). -/
def allDone (segments : SegmentMap) : Bool :=
  segments.values.all fun s ↦ s.state = .completed

/-- Verification and flush after the loop (`segment_coordinator.rs:4077–4141`). -/
def Transfer.verify (t : Transfer) : Transfer :=
  let t := t.change (.syncDownloaded t.published)
  let segTotal := (t.layout.segments.values.map LiveSegment.downloadedBytes).sum
  if segTotal < t.layout.effectiveTotalBytes then { t with phase := .failed }
  else match validateCoverage t.layout.segments t.layout.effectiveTotalBytes with
    | .error _ => { t with phase := .failed }
    | .ok () =>
      { t with
        phase := .ok (t.layout.segments.values.map fun s ↦ (s.index, s.downloadedBytes)) }

/-- One action of the coordinator while its loop runs. -/
def Transfer.coordinate (t : Transfer) : CoordinatorAction → Transfer
  | .sync => t.change (.syncDownloaded t.published)
  | .findNextWork minSplit cost => t.assign (.findNextWork minSplit cost)
      (Engine.findNextWork t.layout.segments t.layout.nextIndex minSplit cost).2.2
  | .findNextPendingOnly => t.assign .findNextPendingOnly
      (Engine.findNextPendingOnly t.layout.segments).2
  | .trySplitLargest minSplit cost => t.assign (.trySplitLargest minSplit cost)
      (Engine.trySplitLargest t.layout.segments t.layout.nextIndex minSplit cost).2.2
  | .tryProactiveSplit minSplit cost => t.change (.tryProactiveSplit minSplit cost)
  | .rebuildSegStates =>
    { t with segStates := Engine.rebuildSegStates t.layout.segments t.segStates }
  | .dispatch w windowCap => match t.nextWork, t.workers.get? w with
    | some work, none =>
      { t with
        nextWork := none
        workers := t.workers.insert w (Worker.start work.assignment windowCap) }
    | _, _ => t
  | .reclaim => match t.nextWork with
    | some work => { t.change (.failed work.assignment.segIndex) with nextWork := none }
    | none => t
  | .absorb openEndedStreaming persisted => t.change (.absorb openEndedStreaming persisted)
  | .handleEvent verdict preallocated => match t.events with
    | [] => t
    | event :: rest => { t with events := rest }.handle verdict preallocated event
  -- The loop ends when all segments are done or no worker is left.
  | .exitLoop =>
    if allDone t.layout.segments ∨ t.workers.entries = [] then { t with phase := .exited } else t
  | .verify => t

/-! ## Actions of a worker -/

/-- Report an event and leave the segment. -/
def Transfer.report (t : Transfer) (w : Nat) (event : WorkerEvent) : Transfer :=
  { t with workers := t.workers.erase w, events := t.events ++ [event] }

/-- One action of busy worker `w` (`segment_coordinator.rs:6282–6551`). -/
def Transfer.work (t : Transfer) (w : Nat) (worker : Worker) : WorkerAction → Transfer
  | .readEnd => match t.segStates.get? worker.segIndex with
    | some info =>
      { t with workers := t.workers.insert w { worker with effectiveEnd := info.endByte } }
    | none => t
  | .write n =>
    if 0 < n ∧ n ≤ worker.budget then
      { t with
        written := ⟨worker.segStart + worker.segDownloaded,
          worker.segStart + worker.segDownloaded + n - 1⟩ :: t.written
        workers := t.workers.insert w
          { worker with segDownloaded := worker.segDownloaded + n } }
    else t
  | .publishProgress n =>
    if 0 ≤ n ∧ n ≤ worker.segDownloaded then
      { t with segStates := updateSegState t.segStates worker.segIndex n }
    else t
  | .resume n segEnd windowCap =>
    if 0 ≤ n ∧ n ≤ worker.segDownloaded then
      { t with workers := t.workers.insert w (worker.retry n segEnd windowCap) }
    else t
  | .finish n =>
    if 0 ≤ n ∧ n ≤ worker.segDownloaded then t.report w (.done worker.segIndex n) else t
  | .fail error => t.report w (.failed worker.segIndex error)
  | .preempt => t.report w (.preempted worker.segIndex)

/-- One step of the system. -/
def Transfer.step (t : Transfer) : TransferAction → Transfer
  | .coordinator .verify => if t.phase = .exited then t.verify else t
  | .coordinator a => if t.phase = .running then t.coordinate a else t
  | .worker w a => match t.workers.get? w with
    | some worker => t.work w worker a
    | none => t

/-- A download about to start on a layout whose recorded progress is on disk. -/
def Transfer.initial (layout : Layout) (written : List Span) : Transfer where
  layout := layout
  segStates := buildSegStateVec layout.segments
  nextWork := none
  workers := SortedMap.empty
  events := []
  written := written
  phase := .running

end Engine
