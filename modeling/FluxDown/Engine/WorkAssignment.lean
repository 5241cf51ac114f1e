import FluxDown.Engine.PathScheduler
import FluxDown.Engine.Segment

/-!
# Work assignment

Library `Engine`. How an idle worker gets its next byte range: the first pending segment,
else the upper part of the active segment expected to finish last, cut at a point balanced
between holder and helper. Both kinds of split share `splitBest`; what a split does to the
map is said once, by `splitBest_cases`.
-/

namespace Engine

open Base PathScheduler

/-- At most this many unfinished segments (`segment_coordinator.rs:460`). -/
def maxSegments : Nat := 512

/-- Smallest range cut at the tail of a download (`segment_coordinator.rs:861`). -/
def tailMinSplitBytes : Int := 64 * 1024

/-- Inputs of the split cost model (`segment_coordinator.rs:4595–4602`). -/
structure SplitCost where
  /-- Estimated seconds until a helper receives its first byte. -/
  setupSecs : Float
  /-- Rate of one connection before any per-segment sample exists. -/
  connBps : Option Float

/-- A byte range handed to a worker (`segment_coordinator.rs:1283–1298`). -/
structure WorkerAssignment where
  /-- Segment to download. -/
  segIndex : Int
  /-- First byte of the segment. -/
  segStart : Int
  /-- First byte to request. -/
  actualStart : Int
  /-- Last byte of the segment. -/
  segEnd : Int
  /-- Request without a range end. -/
  openEnded : Bool
  /-- Request without a range header. -/
  noRange : Bool
deriving DecidableEq, Repr

/-- An assignment and the segment it was cut from (`segment_coordinator.rs:1302–1307`). -/
structure NextWork where
  /-- The assignment. -/
  assignment : WorkerAssignment
  /-- Index of the shrunk parent of a split. -/
  splitParent : Option Int
deriving DecidableEq, Repr

/-- Every segment carries its own key. -/
def Keyed (segments : SegmentMap) : Prop :=
  ∀ k seg, segments.get? k = some seg → seg.index = k

/-- The last of the greatest elements, as `Iterator::max_by` picks it. -/
def maxBy {α : Type*} (cmp : α → α → Ordering) : List α → Option α
  | [] => none
  | x :: xs => some (xs.foldl (fun best y ↦ if cmp best y = .gt then best else y) x)

private theorem maxBy_mem {α : Type*} {cmp : α → α → Ordering} :
    ∀ {l : List α} {x : α}, maxBy cmp l = some x → x ∈ l
  | [], _, h => by simp [maxBy] at h
  | a :: l, x, h => by
    have hfold : ∀ (l : List α) (a : α),
        l.foldl (fun best y ↦ if cmp best y = .gt then best else y) a ∈ a :: l := by
      intro l
      induction l with
      | nil => exact fun a ↦ List.mem_cons_self
      | cons y l ih =>
        intro a
        rw [List.foldl_cons]
        split
        · rcases List.mem_cons.mp (ih a) with h | h
          · rw [h]
            exact List.mem_cons_self
          · exact List.mem_cons_of_mem _ (List.mem_cons_of_mem _ h)
        · exact List.mem_cons_of_mem _ (ih y)
    exact Option.some.inj h ▸ hfold l a

/-! ## Pending segments -/

/-- The first pending segment in index order. -/
def firstPending (segments : SegmentMap) : Option LiveSegment :=
  segments.values.find? (fun s ↦ s.state = .pending)

/-- Change the state of one segment. -/
def setState (segments : SegmentMap) (idx : Int) (state : SegState) : SegmentMap :=
  segments.modify idx (fun s ↦ { s with state := state })

/-- Work that resumes a pending segment. -/
def resumeWork (seg : LiveSegment) : NextWork where
  assignment :=
    { segIndex := seg.index
      segStart := seg.startByte
      actualStart := seg.startByte + seg.downloadedBytes
      segEnd := seg.endByte
      openEnded := false
      noRange := false }
  splitParent := none

/-- Assign a pending segment and never split (`segment_coordinator.rs:4575–4593`). -/
def findNextPendingOnly (segments : SegmentMap) : SegmentMap × Option NextWork :=
  match firstPending segments with
  | none => (segments, none)
  | some seg => (setState segments seg.index .active, some (resumeWork seg))

/-! ## Splitting -/

/-- The rate a helper is expected to reach. -/
def helperBps (segments : SegmentMap) (cost : SplitCost) : Option Float :=
  (maxBy totalCmp (((segments.values.filter (fun s ↦ s.state = .active)).filterMap
    LiveSegment.rateBps).filter (fun r ↦ r > 0.0))).or (cost.connBps.filter (fun r ↦ r > 0.0))

/-- Expected completion of a segment, remaining bytes when no rate is known. -/
def expectedFinish (helper : Option Float) (s : LiveSegment) : Float :=
  match helper with
  | some h => completionSecs s.remaining (s.rateBps.getD h)
  | none => Float.ofInt s.remaining

/-- Later finish first, then more remaining bytes. -/
def compareFinish (helper : Option Float) (a b : LiveSegment) : Ordering :=
  (totalCmp (expectedFinish helper a) (expectedFinish helper b)).then
    (compare a.remaining b.remaining)

/-- Where to cut: segment index, current position, remaining bytes and split point
(`segment_coordinator.rs:4618–4669`). -/
def planSplit (segments : SegmentMap) (minSplit : Int) (cost : SplitCost) :
    Option (Int × Int × Int × Int) := do
  let helper := helperBps segments cost
  let best ← maxBy (compareFinish helper) (segments.values.filter
    fun s ↦ s.state = .active ∧ s.remaining ≥ minSplit)
  let currentPos := best.startByte + best.downloadedBytes
  let remaining := best.endByte - currentPos + 1
  if remaining < minSplit then none
  else
    let keep ← splitKeepWithSetup remaining (best.rateBps.or helper) helper cost.setupSecs
    let splitPoint := currentPos + keep
    if splitPoint ≤ currentPos ∨ splitPoint > best.endByte then none
    else some (best.index, currentPos, remaining, splitPoint)

/-- The upper part of a split, nothing downloaded yet. -/
def splitChild (index splitPoint endByte : Int) (state : SegState) : LiveSegment where
  index := index
  startByte := splitPoint
  endByte := endByte
  downloadedBytes := 0
  state := state
  rateBps := none

/-- Shrink segment `idx` to end before `splitPoint` and insert the rest as `newIndex`. -/
def splitSegment (segments : SegmentMap) (newIndex idx splitPoint oldEnd : Int)
    (childState : SegState) : SegmentMap :=
  (segments.modify idx fun s ↦ { s with endByte := splitPoint - 1 }).insert newIndex
    (splitChild newIndex splitPoint oldEnd childState)

/-- Work on the upper part of a split. -/
def splitWork (newIndex idx splitPoint oldEnd : Int) : NextWork where
  assignment :=
    { segIndex := newIndex
      segStart := splitPoint
      actualStart := splitPoint
      segEnd := oldEnd
      openEnded := false
      noRange := false }
  splitParent := some idx

/-- Cut the segment `planSplit` picks, under the segment cap. -/
def splitBest (segments : SegmentMap) (nextIndex minSplit : Int) (cost : SplitCost)
    (childState : SegState) : SegmentMap × Int × Option NextWork :=
  if maxSegments ≤ segments.values.countP (fun s ↦ s.state ≠ .completed) then
    (segments, nextIndex, none)
  else match planSplit segments minSplit cost with
    | none => (segments, nextIndex, none)
    | some (bestIdx, _, _, splitPoint) => match segments.get? bestIdx with
      | none => (segments, nextIndex, none)
      | some best =>
        (splitSegment segments nextIndex bestIdx splitPoint best.endByte childState,
          wrapI32 (nextIndex + 1), some (splitWork nextIndex bestIdx splitPoint best.endByte))

/-- Split for an idle worker, which takes the new part at once
(`segment_coordinator.rs:4676–4739`). -/
def trySplitLargest (segments : SegmentMap) (nextIndex minSplit : Int) (cost : SplitCost) :
    SegmentMap × Int × Option NextWork :=
  splitBest segments nextIndex minSplit cost .active

/-- Split ahead of demand, leaving the new part pending
(`segment_coordinator.rs:4756–4819`). -/
def tryProactiveSplit (segments : SegmentMap) (nextIndex minSplit : Int) (cost : SplitCost) :
    SegmentMap × Int × Option NextWork :=
  if segments.values.any (fun s ↦ s.state = .pending) then (segments, nextIndex, none)
  else splitBest segments nextIndex minSplit cost .pending

/-- Largest remaining byte count of an active segment, 0 when there is none. -/
def maxRemaining (segments : SegmentMap) : Int :=
  ((segments.values.filter (fun s ↦ s.state = .active)).map LiveSegment.remaining).max?.getD 0

/-- Next work for an idle worker: a pending segment, else a split, else a split of a
straggler's tail (`segment_coordinator.rs:4496–4569`). -/
def findNextWork (segments : SegmentMap) (nextIndex minSplit : Int) (cost : SplitCost) :
    SegmentMap × Int × Option NextWork :=
  match firstPending segments with
  | some seg => (setState segments seg.index .active, nextIndex, some (resumeWork seg))
  | none =>
    let result := trySplitLargest segments nextIndex minSplit cost
    if result.2.2.isSome then result
    -- A failed split changes nothing, so the retry starts from the same map.
    else if minSplit > tailMinSplitBytes ∧ maxRemaining segments ≥ 2 * tailMinSplitBytes then
      trySplitLargest segments nextIndex tailMinSplitBytes cost
    else (segments, nextIndex, none)

/-! ## What assignment does to the map -/

/-- A planned cut lies strictly behind the current position of an active segment. -/
theorem planSplit_spec {segments : SegmentMap} (hkeyed : Keyed segments) {minSplit : Int}
    {cost : SplitCost} {idx pos remaining splitPoint : Int}
    (h : planSplit segments minSplit cost = some (idx, pos, remaining, splitPoint)) :
    ∃ best, segments.get? idx = some best ∧ best.state = .active ∧ minSplit ≤ best.remaining ∧
      best.startByte + best.downloadedBytes < splitPoint ∧ splitPoint ≤ best.endByte := by
  simp only [planSplit, Option.bind_eq_bind, Option.bind_eq_some_iff] at h
  obtain ⟨best, hbest, h⟩ := h
  split at h
  · exact absurd h (by simp)
  obtain ⟨keep, -, h⟩ := Option.bind_eq_some_iff.mp h
  split at h
  · exact absurd h (by simp)
  next hpoint =>
  obtain ⟨rfl, rfl, -, rfl⟩ : best.index = idx ∧ _ = pos ∧ _ = remaining ∧ _ = splitPoint := by
    simpa using h
  have hmem := maxBy_mem hbest
  simp only [List.mem_filter, decide_eq_true_eq] at hmem
  obtain ⟨hval, hactive, hmin⟩ := hmem
  obtain ⟨k, hk⟩ := segments.mem_values_iff.mp hval
  refine ⟨best, ?_, hactive, hmin, by omega, by omega⟩
  rw [hkeyed k best hk, hk]

/-- A split changes nothing or cuts an active segment strictly behind its progress. -/
theorem splitBest_cases {segments : SegmentMap} (hkeyed : Keyed segments)
    (nextIndex minSplit : Int) (cost : SplitCost) (childState : SegState) :
    splitBest segments nextIndex minSplit cost childState = (segments, nextIndex, none) ∨
    ∃ idx best splitPoint, segments.get? idx = some best ∧ best.state = .active ∧
      best.startByte + best.downloadedBytes < splitPoint ∧ splitPoint ≤ best.endByte ∧
      splitBest segments nextIndex minSplit cost childState =
        (splitSegment segments nextIndex idx splitPoint best.endByte childState,
          wrapI32 (nextIndex + 1), some (splitWork nextIndex idx splitPoint best.endByte)) := by
  unfold splitBest
  split
  · exact Or.inl rfl
  · split
    · exact Or.inl rfl
    · next idx _ _ splitPoint hplan =>
      obtain ⟨best, hget, hactive, -, hlo, hhi⟩ := planSplit_spec hkeyed hplan
      rw [hget]
      exact Or.inr ⟨idx, best, splitPoint, hget, hactive, hlo, hhi, rfl⟩

/-- The first pending segment is stored under its index. -/
theorem firstPending_spec {segments : SegmentMap} (hkeyed : Keyed segments) {seg : LiveSegment}
    (h : firstPending segments = some seg) :
    segments.get? seg.index = some seg ∧ seg.state = .pending := by
  obtain ⟨k, hk⟩ := segments.mem_values_iff.mp (List.mem_of_find?_eq_some h)
  refine ⟨by rw [hkeyed k seg hk, hk], ?_⟩
  simpa using List.find?_some h

/-- Assignment marks a pending segment active, cuts an active one, or changes nothing. -/
theorem findNextWork_cases {segments : SegmentMap} (hkeyed : Keyed segments)
    (nextIndex minSplit : Int) (cost : SplitCost) :
    findNextWork segments nextIndex minSplit cost = (segments, nextIndex, none) ∨
    (∃ seg, segments.get? seg.index = some seg ∧ seg.state = .pending ∧
      findNextWork segments nextIndex minSplit cost =
        (setState segments seg.index .active, nextIndex, some (resumeWork seg))) ∨
    ∃ idx best splitPoint, segments.get? idx = some best ∧ best.state = .active ∧
      best.startByte + best.downloadedBytes < splitPoint ∧ splitPoint ≤ best.endByte ∧
      findNextWork segments nextIndex minSplit cost =
        (splitSegment segments nextIndex idx splitPoint best.endByte .active,
          wrapI32 (nextIndex + 1), some (splitWork nextIndex idx splitPoint best.endByte)) := by
  unfold findNextWork
  split
  · next seg hfirst =>
    obtain ⟨hget, hpending⟩ := firstPending_spec hkeyed hfirst
    exact Or.inr (Or.inl ⟨seg, hget, hpending, rfl⟩)
  · dsimp only [trySplitLargest]
    split
    · next hsome =>
      rcases splitBest_cases hkeyed nextIndex minSplit cost .active with h | h
      · rw [h] at hsome
        exact absurd hsome (by simp)
      · exact Or.inr (Or.inr h)
    · split
      · exact (splitBest_cases hkeyed nextIndex tailMinSplitBytes cost .active).imp_right Or.inr
      · exact Or.inl rfl

end Engine
