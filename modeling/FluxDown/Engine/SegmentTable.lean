import FluxDown.Engine.LayoutInvariant

/-!
# Stored segments

Library `Engine`. The rows of the table of segments and what the database does to them, each
operation one transaction. A change of the layout is stored after it was made, by one of three
operations; then the rows have the indices and ranges of the layout again.
-/

namespace Engine

open Base

/-- A row of a task, without its index. -/
structure StoredRange where
  startByte : Int
  endByte : Int
  downloadedBytes : Int
deriving DecidableEq

/-- The rows of a task by index. -/
abbrev SegmentTable := SortedMap Int StoredRange

namespace StoredRange

/-- The range of a row. -/
def span (r : StoredRange) : Span := ⟨r.startByte, r.endByte⟩

/-- The length of a row. -/
def length (r : StoredRange) : Int := r.endByte - r.startByte + 1

/-- Progress of a worker, at most the length (`src/native/engine/src/db.rs:3031–3034`). -/
def bounded (r : StoredRange) (bytes : Int) : StoredRange :=
  { r with downloadedBytes := if r.length < bytes then r.length else bytes }

/-- Progress of the batch, which never falls (`db.rs:3066–3070`). -/
def raised (r : StoredRange) (bytes : Int) : StoredRange :=
  { r with
    downloadedBytes := if r.length < bytes then r.length
      else if bytes < r.downloadedBytes then r.downloadedBytes
      else bytes }

end StoredRange

namespace SegmentTable

/-- `db.rs:2962–2981`. -/
def loadSegments (t : SegmentTable) : List SegmentRow :=
  t.entries.map fun e ↦ ⟨e.1, e.2.startByte, e.2.endByte, e.2.downloadedBytes⟩

/-- `db.rs:2940–2960`. -/
def insertSegments (t : SegmentTable) (segments : List (Int × Int × Int)) : SegmentTable :=
  t.insertAll (segments.map fun s ↦ (s.1, ⟨s.2.1, s.2.2, 0⟩))

/-- `db.rs:3800–3814`. -/
def resetSegmentsProgress (t : SegmentTable) : SegmentTable :=
  t.mapValues fun _ r ↦ { r with downloadedBytes := 0 }

/-- Progress of one row, where it still starts at `startByte` (`db.rs:3022–3047`, `3062–3080`). -/
def updateProgress (t : SegmentTable) (batch : Bool) (row : Int × Int × Int) : SegmentTable :=
  let (index, bytes, startByte) := row
  t.modify index fun r ↦
    if r.startByte = startByte then if batch then r.raised bytes else r.bounded bytes else r

/-- `db.rs:3088–3107`; the rows of index and bytes are written without a bound. -/
def flushSegmentsProgress (t : SegmentTable) (updates : List (Int × Int)) : SegmentTable :=
  updates.foldl (fun t row ↦ t.modify row.1 fun r ↦ { r with downloadedBytes := row.2 }) t

/-- `db.rs:3830–3858`. -/
def upsertSegment (t : SegmentTable) (index startByte endByte downloadedBytes : Int) :
    SegmentTable :=
  t.insert index ⟨startByte, endByte, downloadedBytes⟩

/-- `db.rs:3867–3907`. -/
def persistSplit (t : SegmentTable)
    (childIndex childStart childEnd childDownloaded parentIndex parentNewEnd : Int) :
    SegmentTable :=
  (t.insert childIndex ⟨childStart, childEnd, childDownloaded⟩).modify parentIndex
    fun r ↦ { r with endByte := parentNewEnd }

/-- `db.rs:3912–3938`. -/
def persistMerge (t : SegmentTable) (parentIndex parentNewEnd : Int) (absorbed : List Int) :
    SegmentTable :=
  (t.modify parentIndex fun r ↦ { r with endByte := parentNewEnd }).eraseAll absorbed

/-- The ranges of the rows. -/
def spans (t : SegmentTable) : List Span := t.values.map StoredRange.span

end SegmentTable

/-! ## What the coordinator stores -/

/-- Store a split; a range that is only assigned again has its row. The inner option is none where
a segment is missing (`segment_coordinator.rs:5013–5042`). -/
def persistSegmentChange (t : SegmentTable) (segments : SegmentMap) (changedIndex : Int)
    (splitParent : Option Int) : Option (Option SegmentTable) :=
  match splitParent with
  | none => none
  | some parentIdx => some <|
    match segments.get? changedIndex, segments.get? parentIdx with
    | some child, some parent => some (t.persistSplit child.index child.startByte child.endByte 0
        parent.index parent.endByte)
    | _, _ => none

/-- Store what an assignment did (`segment_coordinator.rs:2476–2479`). -/
def persistAssigned (t : SegmentTable) (result : SegmentMap × Int × Option NextWork) :
    Option (Option SegmentTable) :=
  match result.2.2 with
  | none => none
  | some next => persistSegmentChange t result.1 next.assignment.segIndex next.splitParent

/-- The open segment with the end and the segments it takes over
(`segment_coordinator.rs:4918–4939`). -/
def absorbed (segments : SegmentMap) (openEndedStreaming : Option Int) :
    Option (Int × Int × List LiveSegment) := do
  let openIdx ← openEndedStreaming
  let openSeg ← (segments.get? openIdx).filter fun s ↦ s.state = .active
  let scan := absorbScan segments segments.entries.length openSeg.endByte
  if scan.2.isEmpty then none else some (openIdx, scan.1, scan.2)

/-- The write that follows an operation on the layout; none where nothing is written. The inner
option is none where the write cannot be made (`segment_coordinator.rs:2401–2403`, `2476–2479`,
`2602`, `4942–4945`). -/
def Layout.persist (l : Layout) (t : SegmentTable) : LayoutOp → Option (Option SegmentTable)
  | .findNextWork minSplit cost =>
    persistAssigned t (Engine.findNextWork l.segments l.nextIndex minSplit cost)
  | .findNextPendingOnly =>
    persistAssigned t ((Engine.findNextPendingOnly l.segments).1, l.nextIndex,
      (Engine.findNextPendingOnly l.segments).2)
  | .trySplitLargest minSplit cost =>
    persistAssigned t (Engine.trySplitLargest l.segments l.nextIndex minSplit cost)
  | .tryProactiveSplit minSplit cost =>
    persistAssigned t (Engine.tryProactiveSplit l.segments l.nextIndex minSplit cost)
  | .done segIndex downloadedBytes =>
    let result := handleDone l.segments l.nextIndex segIndex downloadedBytes
    match result.2.2 with
    | none => none
    | some childIdx => persistSegmentChange t result.1 childIdx (some segIndex)
  | .trueSizeLarger _ reportedTotal preallocated =>
    if l.effectiveTotalBytes < reportedTotal ∧ l.expansions < maxSizeExpansions ∧ preallocated then
      some (some (t.upsertSegment l.nextIndex l.effectiveTotalBytes (reportedTotal - 1) 0))
    else none
  | .absorb openEndedStreaming persisted =>
    match absorbed l.segments openEndedStreaming with
    | none => none
    | some (openIdx, newEnd, segments) =>
      if persisted then some (some (t.persistMerge openIdx newEnd (segments.map LiveSegment.index)))
      else none
  | _ => none

/-! ## Rows and layout -/

/-- The rows have the indices and ranges of the layout. -/
def Mirrors (t : SegmentTable) (segments : SegmentMap) : Prop :=
  ∀ k, (t.get? k).map StoredRange.span = (segments.get? k).map LiveSegment.span

/-- What storing does to the rows: progress stays, new rows have none. -/
structure Stored (nextIndex : Int) (t t' : SegmentTable) : Prop where
  rows : ∀ k r', t'.get? k = some r' → r'.downloadedBytes = 0 ∨
    ∃ r, t.get? k = some r ∧ r'.startByte = r.startByte ∧ r'.downloadedBytes = r.downloadedBytes
  keys : ∀ k, (t'.get? k).isSome → k = nextIndex ∨ (t.get? k).isSome

/-- Rows mirror segments of the same shape. -/
theorem Mirrors.of_shape {t : SegmentTable} {segments segments' : SegmentMap}
    (h : Mirrors t segments) (hshape : shape segments' = shape segments) :
    Mirrors t segments' := by
  intro k
  have hget := congrArg (fun m ↦ (m.get? k).map Prod.snd) hshape
  simp only [get?_shape, Option.map_map] at hget
  rw [h k]
  exact hget.symm

/-- Mirrored segments have the ranges of the rows. -/
theorem Mirrors.spans_eq {t : SegmentTable} {segments : SegmentMap} (h : Mirrors t segments) :
    t.spans = spans segments :=
  SortedMap.values_map_congr h

/-- The row of a segment. -/
theorem Mirrors.row {t : SegmentTable} {segments : SegmentMap} (h : Mirrors t segments) {k : Int}
    {seg : LiveSegment} (hget : segments.get? k = some seg) :
    ∃ r, t.get? k = some r ∧ r.startByte = seg.startByte ∧ r.endByte = seg.endByte := by
  have hrow := h k
  rw [hget] at hrow
  obtain ⟨r, hr, hspan⟩ := Option.map_eq_some_iff.mp hrow
  obtain ⟨hstart, hend⟩ := Span.mk.inj hspan
  exact ⟨r, hr, hstart, hend⟩

/-- A row is there when its segment is. -/
theorem Mirrors.isSome {t : SegmentTable} {segments : SegmentMap} (h : Mirrors t segments)
    (k : Int) : (t.get? k).isSome = (segments.get? k).isSome := by
  have hrow := congrArg Option.isSome (h k)
  rwa [Option.isSome_map, Option.isSome_map] at hrow

/-! ## Storing keeps the rows and the layout together -/

/-- A stored split. The lower part keeps the start and the progress. -/
theorem mirrors_split {t : SegmentTable} {segments : SegmentMap} {idx next : Int}
    {seg : LiveSegment} (lower child : LiveSegment) (h : Mirrors t segments)
    (hget : segments.get? idx = some seg) (hne : next ≠ idx) (hlower : lower.index = idx)
    (hstart : lower.startByte = seg.startByte)
    (hchild : child.index = next) :
    ∃ t', persistSegmentChange t ((segments.insert idx lower).insert next child) next (some idx) =
        some (some t') ∧
      Mirrors t' ((segments.insert idx lower).insert next child) ∧ Stored next t t' := by
  obtain ⟨r, hr, hrstart, -⟩ := h.row hget
  have hget? : ∀ k, (t.persistSplit next child.startByte child.endByte 0 idx lower.endByte).get? k =
      if k = idx then some { r with endByte := lower.endByte }
      else if k = next then some ⟨child.startByte, child.endByte, 0⟩ else t.get? k := by
    intro k
    rw [SegmentTable.persistSplit, SortedMap.get?_modify, SortedMap.get?_insert]
    split
    · next hk => rw [if_neg (by omega), hk, hr, Option.map_some]
    · rfl
  refine ⟨t.persistSplit next child.startByte child.endByte 0 idx lower.endByte, ?_,
    fun k ↦ ?_, fun k r' hr' ↦ ?_, fun k hk ↦ ?_⟩
  · simp only [persistSegmentChange, SortedMap.get?_insert, if_pos, if_neg hne.symm, hchild, hlower]
  · rw [hget?, SortedMap.get?_insert, SortedMap.get?_insert]
    by_cases hidx : k = idx
    · simp only [if_pos hidx, if_neg (show ¬ k = next by omega), Option.map_some,
        StoredRange.span, LiveSegment.span, hstart, hrstart]
    · rw [if_neg hidx]
      split
      · rfl
      · exact h k
  · rw [hget?] at hr'
    split at hr'
    · next hk =>
      rw [← Option.some.inj hr', hk]
      exact Or.inr ⟨r, hr, rfl, rfl⟩
    split at hr'
    · rw [← Option.some.inj hr']
      exact Or.inl rfl
    · exact Or.inr ⟨r', hr', rfl, rfl⟩
  · rw [hget?] at hk
    split at hk
    · next hidx =>
      right
      rw [hidx, hr]
      rfl
    split at hk
    · next hnext => exact Or.inl hnext
    · exact Or.inr hk

/-- A stored assignment: nothing is assigned, a range is assigned again or a part of one is. -/
theorem mirrors_assigned {l : Layout} (hwf : l.WF) {t : SegmentTable}
    (h : Mirrors t l.segments) (result : SegmentMap × Int × Option NextWork) (state : SegState)
    (hresult : result = (l.segments, l.nextIndex, none) ∨
      (∃ seg, result = (setState l.segments seg.index .active, l.nextIndex,
        some (resumeWork seg))) ∨
      ∃ idx best point, l.segments.get? idx = some best ∧
        result = (splitSegment l.segments l.nextIndex idx point best.endByte state,
          wrapI32 (l.nextIndex + 1), some (splitWork l.nextIndex idx point best.endByte))) :
    persistAssigned t result = none ∧ Mirrors t result.1 ∨
      ∃ t', persistAssigned t result = some (some t') ∧ Mirrors t' result.1 ∧
        Stored l.nextIndex t t' := by
  rcases hresult with rfl | ⟨seg, rfl⟩ | ⟨idx, best, point, hget, rfl⟩
  · exact Or.inl ⟨rfl, h⟩
  · exact Or.inl ⟨rfl, h.of_shape (shape_modify fun _ _ ↦ ⟨rfl, rfl⟩)⟩
  · have hbelow := hwf.below idx best hget
    have hsplit := mirrors_split { best with endByte := point - 1 }
      (splitChild l.nextIndex point best.endByte state) h hget (show l.nextIndex ≠ idx by omega)
      (hwf.keyed idx best hget) rfl rfl
    rw [← l.segments.modify_of_get? (fun s ↦ { s with endByte := point - 1 }) hget] at hsplit
    exact Or.inr hsplit

/-- A stored absorption. -/
theorem mirrors_absorb {t : SegmentTable} {segments : SegmentMap} (h : Mirrors t segments)
    (openIdx newEnd : Int) (absorbed : List Int) :
    Mirrors (t.persistMerge openIdx newEnd absorbed)
      ((segments.eraseAll absorbed).modify openIdx fun s ↦ { s with endByte := newEnd }) := by
  intro k
  rw [SegmentTable.persistMerge, SortedMap.get?_eraseAll, SortedMap.get?_modify,
    SortedMap.get?_modify, SortedMap.get?_eraseAll]
  have hk := h k
  split
  · split <;> rfl
  split
  · cases hrow : t.get? k with
    | none =>
      rw [hrow] at hk
      rw [Option.map_eq_none_iff.mp hk.symm]
      rfl
    | some r =>
      rw [hrow] at hk
      obtain ⟨s, hs, hspan⟩ := Option.map_eq_some_iff.mp hk.symm
      rw [hs]
      exact congrArg (fun span : Span ↦ some (Span.mk span.lo newEnd)) hspan.symm
  · exact hk

private theorem stored_merge (nextIndex : Int) (t : SegmentTable) (openIdx newEnd : Int)
    (absorbed : List Int) : Stored nextIndex t (t.persistMerge openIdx newEnd absorbed) := by
  have hget? : ∀ k, (t.persistMerge openIdx newEnd absorbed).get? k = if k ∈ absorbed then none
      else if k = openIdx then (t.get? k).map fun r ↦ { r with endByte := newEnd }
      else t.get? k := by
    intro k
    rw [SegmentTable.persistMerge, SortedMap.get?_eraseAll, SortedMap.get?_modify]
  constructor
  · intro k r' hr'
    rw [hget?] at hr'
    split at hr'
    · exact absurd hr' (by simp)
    split at hr'
    · obtain ⟨r, hr, rfl⟩ := Option.map_eq_some_iff.mp hr'
      exact Or.inr ⟨r, hr, rfl, rfl⟩
    · exact Or.inr ⟨r', hr', rfl, rfl⟩
  · intro k hk
    rw [hget?] at hk
    split at hk
    · exact absurd hk (by simp)
    split at hk
    · rw [Option.isSome_map] at hk
      exact Or.inr hk
    · exact Or.inr hk

/-- A stored tail. -/
theorem mirrors_expand {l : Layout} {t : SegmentTable}
    (h : Mirrors t l.segments) (reportedTotal : Int) :
    Mirrors (t.upsertSegment l.nextIndex l.effectiveTotalBytes (reportedTotal - 1) 0)
        (l.expand reportedTotal).segments ∧
      Stored l.nextIndex t
        (t.upsertSegment l.nextIndex l.effectiveTotalBytes (reportedTotal - 1) 0) := by
  refine ⟨fun k ↦ ?_, fun k r' hr' ↦ ?_, fun k hk ↦ ?_⟩
  · rw [SegmentTable.upsertSegment, Layout.expand, SortedMap.get?_insert, SortedMap.get?_insert]
    split
    · rfl
    · exact h k
  · rw [SegmentTable.upsertSegment, SortedMap.get?_insert] at hr'
    split at hr'
    · rw [← Option.some.inj hr']
      exact Or.inl rfl
    · exact Or.inr ⟨r', hr', rfl, rfl⟩
  · rw [SegmentTable.upsertSegment, SortedMap.get?_insert] at hk
    split at hk
    · next hnext => exact Or.inl hnext
    · exact Or.inr hk

private theorem shape_sync (segments : SegmentMap) (shared : List (Int × Int)) :
    shape (syncDownloadedFromShared segments shared) = shape segments := by
  unfold syncDownloadedFromShared
  induction shared generalizing segments with
  | nil => rfl
  | cons info shared ih =>
    rw [List.foldl_cons, ih]
    exact shape_modify fun s _ ↦ by split <;> exact ⟨rfl, rfl⟩

/-- What absorption does is what its write says. -/
theorem absorb_eq (segments : SegmentMap) (openEndedStreaming : Option Int)
    (persisted : Bool) :
    (absorbPendingIntoOpenStream segments openEndedStreaming persisted).1 =
      match absorbed segments openEndedStreaming with
      | none => segments
      | some (openIdx, newEnd, taken) =>
        if persisted then
          (segments.eraseAll (taken.map LiveSegment.index)).modify openIdx
            fun s ↦ { s with endByte := newEnd }
        else segments := by
  unfold absorbPendingIntoOpenStream absorbed
  cases openEndedStreaming with
  | none => rfl
  | some openIdx =>
    cases hopen : (segments.get? openIdx).filter fun s ↦ s.state = .active with
    | none => simp [hopen]
    | some openSeg =>
      simp only [hopen, Option.bind_eq_bind, Option.bind_some]
      by_cases hempty : (absorbScan segments segments.entries.length openSeg.endByte).2.isEmpty
      · simp [hempty]
      · cases persisted <;> simp [hempty]

/-- After its write an operation has left rows and layout with the same ranges; it writes nothing
only where the ranges stayed. -/
theorem Layout.persist_spec {l : Layout} (hwf : l.WF) (op : LayoutOp)
    {t : SegmentTable} (h : Mirrors t l.segments) :
    l.persist t op = none ∧ Mirrors t (l.step op).segments ∨
      ∃ t', l.persist t op = some (some t') ∧ Mirrors t' (l.step op).segments ∧
        Stored l.nextIndex t t' := by
  cases op with
  | findNextWork minSplit cost =>
    refine mirrors_assigned hwf h _ .active ?_
    rcases findNextWork_cases hwf.keyed l.nextIndex minSplit cost with
      heq | ⟨seg, -, -, heq⟩ | ⟨idx, best, point, hget, -, -, -, heq⟩
    · exact Or.inl heq
    · exact Or.inr (Or.inl ⟨seg, heq⟩)
    · exact Or.inr (Or.inr ⟨idx, best, point, hget, heq⟩)
  | findNextPendingOnly =>
    refine mirrors_assigned hwf h ((Engine.findNextPendingOnly l.segments).1, l.nextIndex,
      (Engine.findNextPendingOnly l.segments).2) .active ?_
    unfold findNextPendingOnly
    split
    · exact Or.inl rfl
    · next seg _ => exact Or.inr (Or.inl ⟨seg, rfl⟩)
  | trySplitLargest minSplit cost =>
    refine mirrors_assigned hwf h _ .active ?_
    rcases splitBest_cases hwf.keyed l.nextIndex minSplit cost .active with
      heq | ⟨idx, best, point, hget, -, -, -, heq⟩
    · exact Or.inl heq
    · exact Or.inr (Or.inr ⟨idx, best, point, hget, heq⟩)
  | tryProactiveSplit minSplit cost =>
    refine mirrors_assigned hwf h _ .pending ?_
    unfold tryProactiveSplit
    split
    · exact Or.inl rfl
    rcases splitBest_cases hwf.keyed l.nextIndex minSplit cost .pending with
      heq | ⟨idx, best, point, hget, -, -, -, heq⟩
    · exact Or.inl heq
    · exact Or.inr (Or.inr ⟨idx, best, point, hget, heq⟩)
  | done segIndex downloadedBytes =>
    dsimp only [Layout.persist, Layout.step]
    rcases handleDone_cases l.segments l.nextIndex segIndex downloadedBytes with
      heq | ⟨seg, hget, -, -, heq⟩ | heq <;> rw [heq]
    · exact Or.inl ⟨rfl, h⟩
    · have hbelow := hwf.below segIndex seg hget
      have hsplit := mirrors_split (completeShort downloadedBytes seg)
        (pendingSegment l.nextIndex (seg.startByte + downloadedBytes) seg.endByte) h hget
        (show l.nextIndex ≠ segIndex by omega) (hwf.keyed segIndex seg hget) rfl rfl
      rw [← l.segments.modify_of_get? (completeShort downloadedBytes) hget] at hsplit
      exact Or.inr hsplit
    · exact Or.inl ⟨rfl, h.of_shape (shape_modify fun _ _ ↦ ⟨rfl, rfl⟩)⟩
  | trueSizeLarger segIndex reportedTotal preallocated =>
    dsimp only [Layout.persist, Layout.step, handleTrueSizeLarger]
    split
    · obtain ⟨hmirrors, hstored⟩ := mirrors_expand h reportedTotal
      exact Or.inr ⟨_, rfl, hmirrors.of_shape (shape_modify fun _ _ ↦ ⟨rfl, rfl⟩), hstored⟩
    · exact Or.inl ⟨rfl, h.of_shape (shape_modify fun _ _ ↦ ⟨rfl, rfl⟩)⟩
  | absorb openEndedStreaming persisted =>
    dsimp only [Layout.persist, Layout.step]
    rw [absorb_eq]
    cases absorbed l.segments openEndedStreaming with
    | none => exact Or.inl ⟨rfl, h⟩
    | some taken =>
      obtain ⟨openIdx, newEnd, taken⟩ := taken
      cases persisted with
      | false => exact Or.inl ⟨rfl, h⟩
      | true => exact Or.inr ⟨_, rfl, mirrors_absorb h _ _ _, stored_merge _ _ _ _ _⟩
  | failed segIndex =>
    exact Or.inl ⟨rfl, h.of_shape (shape_modify fun _ _ ↦ ⟨rfl, rfl⟩)⟩
  | preempted segIndex =>
    exact Or.inl ⟨rfl, h.of_shape (shape_modify fun _ _ ↦ ⟨rfl, rfl⟩)⟩
  | syncDownloaded shared =>
    exact Or.inl ⟨rfl, h.of_shape (shape_sync l.segments shared)⟩

end Engine
