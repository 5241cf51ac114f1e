import FluxDown.Base.Run
import FluxDown.Engine.WorkAssignment

/-!
# Segment layout of a running download

Library `Engine`. The coordinator's layout, that is its segment map, the next free index and
the planned total, and the mutations its event loop applies to it: work assignment, completion
with or without a shortfall, in-place growth, absorption into an open stream, requeues and
progress synchronisation. Each is one operation of `LayoutOp`; a run is any finite sequence of
them.
-/

namespace Engine

open Base

/-- At most this many in-place expansions (`segment_coordinator.rs:75`). -/
def maxSizeExpansions : Nat := 3

/-- The coordinator's layout variables (`segment_coordinator.rs:1678–1679`, `1758`). -/
structure Layout where
  /-- The segment map. -/
  segments : SegmentMap
  /-- Index of the next new segment, an `i32`. -/
  nextIndex : Int
  /-- Planned size of the file. -/
  effectiveTotalBytes : Int
  /-- Expansions used so far. -/
  expansions : Nat

/-- Layout of a download without stored rows (`segment_coordinator.rs:1681–1699`). -/
def Layout.fresh (count totalBytes : Int) : Layout where
  segments := (buildFreshSegments count totalBytes).1
  nextIndex := count
  effectiveTotalBytes := totalBytes
  expansions := 0

/-- Layout restored from stored rows (`segment_coordinator.rs:1700–1724`). -/
def Layout.restored (rows : List SegmentRow) (totalBytes : Int) : Layout where
  segments := (restoreSegments rows).1
  nextIndex := (restoreSegments rows).2
  effectiveTotalBytes := totalBytes
  expansions := 0

/-! ## Completion -/

/-- A finished segment, its progress capped to its size. -/
def completeSegment (downloadedBytes : Int) (seg : LiveSegment) : LiveSegment :=
  { seg with downloadedBytes := min downloadedBytes seg.size, state := .completed }

/-- A segment that ended short, cut down to what was downloaded. -/
def completeShort (downloadedBytes : Int) (seg : LiveSegment) : LiveSegment :=
  { seg with
    endByte := seg.startByte + downloadedBytes - 1
    downloadedBytes := downloadedBytes
    state := .completed }

/-- Mark a segment done; a shortfall goes to a new pending segment, whose index is returned
(`segment_coordinator.rs:2364–2394`). -/
def handleDone (segments : SegmentMap) (nextIndex segIndex downloadedBytes : Int) :
    SegmentMap × Int × Option Int :=
  match segments.get? segIndex with
  | none => (segments, nextIndex, none)
  | some seg =>
    if 0 < downloadedBytes ∧ downloadedBytes < seg.size then
      ((segments.modify segIndex (completeShort downloadedBytes)).insert nextIndex
          (pendingSegment nextIndex (seg.startByte + downloadedBytes) seg.endByte),
        wrapI32 (nextIndex + 1), some nextIndex)
    else (segments.modify segIndex (completeSegment downloadedBytes), nextIndex, none)

/-- A completion ignores an unknown index, cuts a shortfall off or closes the segment. -/
theorem handleDone_cases (segments : SegmentMap) (nextIndex segIndex downloadedBytes : Int) :
    handleDone segments nextIndex segIndex downloadedBytes = (segments, nextIndex, none) ∨
    (∃ seg, segments.get? segIndex = some seg ∧ 0 < downloadedBytes ∧ downloadedBytes < seg.size ∧
      handleDone segments nextIndex segIndex downloadedBytes =
        ((segments.modify segIndex (completeShort downloadedBytes)).insert nextIndex
            (pendingSegment nextIndex (seg.startByte + downloadedBytes) seg.endByte),
          wrapI32 (nextIndex + 1), some nextIndex)) ∨
    handleDone segments nextIndex segIndex downloadedBytes =
      (segments.modify segIndex (completeSegment downloadedBytes), nextIndex, none) := by
  unfold handleDone
  split
  · exact Or.inl rfl
  · next seg hget =>
    split
    · next h => exact Or.inr (Or.inl ⟨seg, hget, h.1, h.2, rfl⟩)
    · exact Or.inr (Or.inr rfl)

/-! ## Growth, absorption, requeues -/

/-- Append the tail `[effectiveTotalBytes, reportedTotal - 1]` as a pending segment
(`segment_coordinator.rs:2584–2602`). -/
def Layout.expand (l : Layout) (reportedTotal : Int) : Layout where
  segments := l.segments.insert l.nextIndex
    (pendingSegment l.nextIndex l.effectiveTotalBytes (reportedTotal - 1))
  nextIndex := wrapI32 (l.nextIndex + 1)
  effectiveTotalBytes := reportedTotal
  expansions := l.expansions + 1

/-- A failure that reports a larger file. The segment goes back to pending in every case; the
layout grows when the report is news, the quota lasts and the file could be extended
(`segment_coordinator.rs:2535–2644`). -/
def handleTrueSizeLarger (l : Layout) (segIndex reportedTotal : Int) (preallocated : Bool) :
    Layout :=
  let l := if l.effectiveTotalBytes < reportedTotal ∧ l.expansions < maxSizeExpansions ∧
    preallocated then l.expand reportedTotal else l
  { l with segments := setState l.segments segIndex .pending }

/-- The pending segment without progress that starts right behind `newEnd`. -/
def nextAbsorbed (segments : SegmentMap) (newEnd : Int) : Option LiveSegment :=
  segments.values.find? fun s ↦
    s.state = .pending ∧ s.downloadedBytes = 0 ∧ s.startByte = newEnd + 1

/-- The absorption loop: the new end and the absorbed segments, at most `fuel` of them
(`segment_coordinator.rs:4927–4939`). -/
def absorbScan (segments : SegmentMap) : Nat → Int → Int × List LiveSegment
  | 0, newEnd => (newEnd, [])
  | fuel + 1, newEnd => match nextAbsorbed segments newEnd with
    | none => (newEnd, [])
    | some s =>
      let rest := absorbScan segments fuel s.endByte
      (rest.1, s :: rest.2)

/-- Merge the pending segments that follow the open stream into it, once the merge is stored.
Returns the number of absorbed segments; one or more also marks the server hostile to
reconnects (`segment_coordinator.rs:4909–4971`). -/
def absorbPendingIntoOpenStream (segments : SegmentMap) (openEndedStreaming : Option Int)
    (persisted : Bool) : SegmentMap × Nat :=
  match openEndedStreaming with
  | none => (segments, 0)
  | some openIdx => match (segments.get? openIdx).filter (fun s ↦ s.state = .active) with
    | none => (segments, 0)
    | some openSeg =>
      let scan := absorbScan segments segments.entries.length openSeg.endByte
      if scan.2.isEmpty ∨ persisted = false then (segments, 0)
      else
        ((segments.eraseAll (scan.2.map LiveSegment.index)).modify openIdx
          (fun s ↦ { s with endByte := scan.1 }), scan.2.length)

/-- Hand an interrupted segment back: complete when nothing remains, else pending
(`segment_coordinator.rs:3124–3131`, `2855–2862`). -/
def requeueSegment (seg : LiveSegment) : LiveSegment :=
  { seg with
    rateBps := none
    state := if seg.remaining = 0 then .completed else .pending }

/-- Copy the progress workers published for active segments
(`segment_coordinator.rs:4980–4995`). -/
def syncDownloadedFromShared (segments : SegmentMap) (shared : List (Int × Int)) : SegmentMap :=
  shared.foldl (fun segs info ↦ segs.modify info.1 fun s ↦
    if s.state = .active then { s with downloadedBytes := info.2 } else s) segments

/-! ## Operations -/

/-- One mutation of the layout by the coordinator's event loop. -/
inductive LayoutOp where
  /-- Assign work, splitting if needed. -/
  | findNextWork (minSplit : Int) (cost : SplitCost)
  /-- Assign pending work only. -/
  | findNextPendingOnly
  /-- Split for an idle worker. -/
  | trySplitLargest (minSplit : Int) (cost : SplitCost)
  /-- Split ahead of demand. -/
  | tryProactiveSplit (minSplit : Int) (cost : SplitCost)
  /-- A worker reports a finished segment. -/
  | done (segIndex downloadedBytes : Int)
  /-- A worker fails on a larger reported size. -/
  | trueSizeLarger (segIndex reportedTotal : Int) (preallocated : Bool)
  /-- Absorb pending segments into the open stream. -/
  | absorb (openEndedStreaming : Option Int) (persisted : Bool)
  /-- A failed segment goes back to the queue as it is. -/
  | failed (segIndex : Int)
  /-- A preempted or isolated segment goes back with its synchronised progress. -/
  | preempted (segIndex : Int)
  /-- Synchronise with the progress workers published. -/
  | syncDownloaded (shared : List (Int × Int))

/-- The layout after a result of work assignment. -/
def Layout.assigned (l : Layout) (result : SegmentMap × Int × Option NextWork) : Layout :=
  { l with segments := result.1, nextIndex := result.2.1 }

/-- One step of the layout. -/
def Layout.step (l : Layout) : LayoutOp → Layout
  | .findNextWork minSplit cost =>
    l.assigned (Engine.findNextWork l.segments l.nextIndex minSplit cost)
  | .findNextPendingOnly => { l with segments := (Engine.findNextPendingOnly l.segments).1 }
  | .trySplitLargest minSplit cost =>
    l.assigned (Engine.trySplitLargest l.segments l.nextIndex minSplit cost)
  | .tryProactiveSplit minSplit cost =>
    l.assigned (Engine.tryProactiveSplit l.segments l.nextIndex minSplit cost)
  | .done segIndex downloadedBytes =>
    let result := handleDone l.segments l.nextIndex segIndex downloadedBytes
    { l with segments := result.1, nextIndex := result.2.1 }
  | .trueSizeLarger segIndex reportedTotal preallocated =>
    handleTrueSizeLarger l segIndex reportedTotal preallocated
  | .absorb openEndedStreaming persisted =>
    { l with
      segments := (absorbPendingIntoOpenStream l.segments openEndedStreaming persisted).1 }
  | .failed segIndex => { l with segments := setState l.segments segIndex .pending }
  | .preempted segIndex => { l with segments := l.segments.modify segIndex requeueSegment }
  | .syncDownloaded shared =>
    { l with segments := syncDownloadedFromShared l.segments shared }

end Engine
