import FluxDown.Engine.SegmentTable

/-!
# Start of a coordinator

Library `Engine`. A coordinator takes its layout from the stored rows or plans a new one. Rows
that do not fit the size the server reports are thrown away; progress is thrown away where the
file is shorter than it should be. Every call to the database may fail, which ends the start.
-/

namespace Engine

open Base

/-- What a coordinator is told, and the length of the file; 0 for a missing file, none where the
length cannot be read. -/
structure StartInput where
  totalBytes : Int
  initialSegmentCount : Int
  sizeIsEstimate : Bool
  strictTotal : Bool
  ownsTaskTotal : Bool
  fileLen : Option Int

/-- The calls of a start that succeed. -/
structure StartAnswers where
  setSegmentsEpoch : Bool
  loadSegments : Bool
  insertFresh : Bool
  correctTotal : Bool
  deleteSegments : Bool
  insertSegments : Bool
  updateTotal : Bool
  resetRows : Bool
  resetTask : Bool
  preallocate : Bool

/-- Where a start has got to. -/
structure Start where
  table : SegmentTable
  /-- The layout; none after an error. -/
  layout : Option Layout
  /-- No stored progress is used any more. -/
  discarded : Bool

namespace Start

/-- Delete the rows and plan the file anew
(`src/native/engine/src/segment_coordinator.rs:1822–1831`, `1862–1874`). -/
def rebuild (start : Start) (input : StartInput) (answers : StartAnswers)
    (count effectiveTotalBytes : Int) : Start :=
  let fresh := buildFreshSegments count input.totalBytes
  if !answers.deleteSegments then { start with layout := none }
  else if !answers.insertSegments then
    { table := SortedMap.empty, layout := none, discarded := true }
  else
    { table := SegmentTable.insertSegments SortedMap.empty fresh.2
      layout :=
        if input.ownsTaskTotal && !answers.updateTotal then none
        else some
          { segments := fresh.1
            nextIndex := count
            effectiveTotalBytes := effectiveTotalBytes
            expansions := 0 }
      discarded := true }

/-- End of the stored ranges. -/
def dbTotal (segments : SegmentMap) (totalBytes : Int) : Int :=
  (segments.values.map fun s ↦ s.endByte + 1).max?.getD totalBytes

/-- How much larger the reported size may be (`segment_coordinator.rs:1783–1789`). -/
def driftThreshold (input : StartInput) (dbTotal : Int) : Int :=
  if input.strictTotal then 0 else min (max (dbTotal.tdiv 100) 1) 1048576

/-- Plan a new layout or restore the stored one (`segment_coordinator.rs:1677–1852`). -/
def plan (t : SegmentTable) (input : StartInput) (answers : StartAnswers) (count : Int) : Start :=
  let existing := t.loadSegments
  if existing.isEmpty then
    let planCount := if input.sizeIsEstimate then 1 else count
    if answers.insertFresh then
      { table := t.insertSegments (buildFreshSegments planCount input.totalBytes).2
        layout := some (Layout.fresh planCount input.totalBytes)
        discarded := true }
    else { table := t, layout := none, discarded := true }
  else
    let restored := Layout.restored existing input.totalBytes
    let stored := dbTotal restored.segments input.totalBytes
    let start : Start := { table := t, layout := some restored, discarded := false }
    if stored < input.totalBytes then
      if input.totalBytes - stored ≤ driftThreshold input stored then
        if input.ownsTaskTotal && !answers.correctTotal then { start with layout := none }
        else { start with layout := some { restored with effectiveTotalBytes := stored } }
      else start.rebuild input answers count input.totalBytes
    else start

/-- Plan anew where the ranges do not cover the file (`segment_coordinator.rs:1854–1875`). -/
def checkCoverage (start : Start) (input : StartInput) (answers : StartAnswers) (count : Int) :
    Start :=
  match start.layout with
  | none => start
  | some l => match validateCoverage l.segments l.effectiveTotalBytes with
    | .ok _ => start
    | .error _ => start.rebuild input answers count l.effectiveTotalBytes

/-- No segment has progress. -/
def withoutProgress (l : Layout) : Layout :=
  { l with
    segments := l.segments.mapValues fun _ s ↦ { s with downloadedBytes := 0, state := .pending } }

/-- Forget the progress where the file is too short (`segment_coordinator.rs:1897–1926`). -/
def checkFile (start : Start) (input : StartInput) (answers : StartAnswers) : Start :=
  match start.layout with
  | none => start
  | some l =>
    match input.fileLen with
    | none => { start with layout := none }
    | some fileLen =>
      let dbDownloaded := (l.segments.values.map LiveSegment.downloadedBytes).sum
      if 0 < dbDownloaded ∧
          (fileLen = 0 ∨ fileLen < dbDownloaded ∨ fileLen < l.effectiveTotalBytes) then
        if answers.resetRows then
          { table := start.table.resetSegmentsProgress
            layout := if answers.resetTask then some (withoutProgress l) else none
            discarded := true }
        else { start with layout := none }
      else start

/-- Cut and extend the file (`segment_coordinator.rs:1941–1945`). -/
def prepareFile (start : Start) (answers : StartAnswers) : Start :=
  if answers.preallocate then start else { start with layout := none }

end Start

/-- The parameters are usable (`segment_coordinator.rs:1641–1650`). -/
def StartInput.valid (input : StartInput) : Bool :=
  0 < input.totalBytes && 1 ≤ input.initialSegmentCount

/-- No range is empty (`segment_coordinator.rs:1664–1669`). -/
def StartInput.count (input : StartInput) : Int :=
  if input.totalBytes < input.initialSegmentCount then input.totalBytes
  else input.initialSegmentCount

/-- Whether the start has taken over the rows (`segment_coordinator.rs:1675`). -/
def StartInput.takesOver (input : StartInput) (answers : StartAnswers) : Bool :=
  input.valid && answers.setSegmentsEpoch

/-- A coordinator up to its first worker (`segment_coordinator.rs:1640–1945`). -/
def startCoordinator (t : SegmentTable) (input : StartInput) (answers : StartAnswers) : Start :=
  if input.takesOver answers && answers.loadSegments then
    (((Start.plan t input answers input.count).checkCoverage input answers input.count).checkFile
      input answers).prepareFile answers
  else { table := t, layout := none, discarded := false }

/-! ## Rows and the layouts made from them -/

/-- No rows, or rows that cover a file once. -/
def SegmentTable.Tiled (t : SegmentTable) : Prop :=
  t.entries = [] ∨ ∃ total, 0 < total ∧ Tiles t.spans 0 total

/-- Rows a coordinator can leave behind. -/
structure SegmentTable.Ready (t : SegmentTable) : Prop where
  tiled : t.Tiled
  rows : ∀ k r, t.get? k = some r → k < i32Max ∧ 0 ≤ r.downloadedBytes

/-- An empty table is ready. -/
theorem SegmentTable.ready_empty : SegmentTable.Ready SortedMap.empty where
  tiled := Or.inl rfl
  rows k r h := by simp at h

private theorem mem_loadSegments {t : SegmentTable} {row : SegmentRow} (h : row ∈ t.loadSegments) :
    ∃ r, t.get? row.index = some r ∧
      row = ⟨row.index, r.startByte, r.endByte, r.downloadedBytes⟩ := by
  obtain ⟨e, he, rfl⟩ := List.mem_map.mp h
  exact ⟨e.2, t.get?_eq_some_iff.mpr he, rfl⟩

/-- The segments restored from the rows. -/
theorem restoreSegments_loadSegments (t : SegmentTable) :
    (restoreSegments t.loadSegments).1 = t.mapValues fun k r ↦
      restoreSegment ⟨k, r.startByte, r.endByte, r.downloadedBytes⟩ := by
  have hfold : ∀ (rows : List SegmentRow) (acc : SegmentMap × Int),
      (rows.foldl (fun acc row ↦ (acc.1.insert row.index (restoreSegment row),
        if row.index ≥ acc.2 then wrapI32 (row.index + 1) else acc.2)) acc).1 =
        acc.1.insertAll (rows.map fun row ↦ (row.index, restoreSegment row)) := by
    intro rows
    induction rows with
    | nil => exact fun _ ↦ rfl
    | cons row rows ih =>
      intro acc
      rw [List.foldl_cons, ih]
      rfl
  rw [restoreSegments, hfold, SegmentTable.loadSegments, List.map_map]
  exact t.insertAll_entries_map fun k r ↦
    restoreSegment ⟨k, r.startByte, r.endByte, r.downloadedBytes⟩

private theorem mirrors_restored (t : SegmentTable) (total : Int) :
    Mirrors t (Layout.restored t.loadSegments total).segments := by
  intro k
  rw [Layout.restored, restoreSegments_loadSegments, SortedMap.get?_mapValues]
  cases t.get? k <;> rfl

private theorem downloaded_restored (t : SegmentTable) (total k : Int) :
    ((Layout.restored t.loadSegments total).segments.get? k).map LiveSegment.downloadedBytes =
      (t.get? k).map StoredRange.downloadedBytes := by
  rw [Layout.restored, restoreSegments_loadSegments, SortedMap.get?_mapValues]
  cases t.get? k <;> rfl

private theorem mirrors_insertAll {t : SegmentTable} {segments : SegmentMap}
    (h : Mirrors t segments) (indices : List Int) (row : Int → StoredRange)
    (seg : Int → LiveSegment) (hspan : ∀ i, (row i).span = (seg i).span) :
    Mirrors (t.insertAll (indices.map fun i ↦ (i, row i)))
      (segments.insertAll (indices.map fun i ↦ (i, seg i))) := by
  induction indices generalizing t segments with
  | nil => exact h
  | cons i indices ih =>
    have hstep : Mirrors (t.insert i (row i)) (segments.insert i (seg i)) := by
      intro k
      rw [SortedMap.get?_insert, SortedMap.get?_insert]
      split
      · exact congrArg some (hspan i)
      · exact h k
    exact ih hstep

private theorem mirrors_fresh (count totalBytes : Int) :
    Mirrors (SegmentTable.insertSegments SortedMap.empty (buildFreshSegments count totalBytes).2)
      (buildFreshSegments count totalBytes).1 := by
  rw [SegmentTable.insertSegments, buildFreshSegments, List.map_map]
  exact mirrors_insertAll (fun _ ↦ rfl) _ (fun i ↦ ⟨(freshRange count totalBytes i).1,
    (freshRange count totalBytes i).2, 0⟩) _ fun _ ↦ rfl

private theorem rows_insertSegments (segments : List (Int × Int × Int)) :
    ∀ k r, (SegmentTable.insertSegments SortedMap.empty segments).get? k = some r →
      r.downloadedBytes = 0 := by
  intro k r h
  rw [SegmentTable.insertSegments, SortedMap.get?_insertAll, SortedMap.get?_empty,
    Option.or_none] at h
  obtain ⟨e, he, rfl⟩ := Option.map_eq_some_iff.mp h
  obtain ⟨s, -, rfl⟩ := List.mem_map.mp (List.mem_reverse.mp (List.mem_of_find?_eq_some he))
  rfl

/-- The stored ranges end where the file they cover ends. -/
theorem Start.dbTotal_of_tiles {segments : SegmentMap} {total : Int}
    (h : Tiles (spans segments) 0 total) (hpos : 0 < total) (totalBytes : Int) :
    Start.dbTotal segments totalBytes = total := by
  have hmax : (segments.values.map fun s ↦ s.endByte + 1).max? = some total := by
    rw [List.max?_eq_some_iff]
    constructor
    · obtain ⟨span, hspan, hcontains⟩ := h.exists_contains (x := total - 1) (by omega) (by omega)
      obtain ⟨s, hs, rfl⟩ := List.mem_map.mp hspan
      have hend : s.endByte < total := (h.bounds hspan).2
      have hlast : total - 1 ≤ s.endByte := hcontains.2
      exact List.mem_map.mpr ⟨s, hs, by omega⟩
    · intro stop hstop
      obtain ⟨s, hs, rfl⟩ := List.mem_map.mp hstop
      have hend : s.endByte < total := (h.bounds (List.mem_map_of_mem hs)).2
      omega
  rw [Start.dbTotal, hmax, Option.getD_some]

/-- Rows that cover a file give a layout of that file. -/
theorem SegmentTable.Ready.wf_restored {t : SegmentTable} (h : t.Ready) {total : Int}
    (haccepted : validateCoverage (Layout.restored t.loadSegments total).segments total = .ok ()) :
    (Layout.restored t.loadSegments total).WF := by
  have hrow : ∀ row ∈ t.loadSegments, row.startByte ≤ row.endByte ∧ 0 ≤ row.downloadedBytes ∧
      row.index < i32Max := by
    intro row hrow
    obtain ⟨r, hr, heq⟩ := mem_loadSegments hrow
    obtain ⟨hkey, hprogress⟩ := h.rows _ r hr
    have hspan : r.span.Nonempty := by
      rcases h.tiled with hnil | ⟨_, -, htiles⟩
      · have hmem := t.get?_eq_some_iff.mp hr
        rw [hnil] at hmem
        exact absurd hmem List.not_mem_nil
      · exact htiles.nonempty _ (List.mem_map_of_mem (t.mem_values_iff.mpr ⟨_, hr⟩))
    rw [heq]
    exact ⟨hspan, hprogress, hkey⟩
  exact (Layout.Initial.restored t.loadSegments total haccepted (fun row hr ↦ (hrow row hr).1)
    (fun row hr ↦ (hrow row hr).2.1) fun row hr ↦ (hrow row hr).2.2).wf

private theorem SegmentTable.Tiled.restored {t : SegmentTable} {total : Int}
    (h : Tiles t.spans 0 total) (totalBytes : Int) :
    Tiles (Engine.spans (Layout.restored t.loadSegments totalBytes).segments) 0 total := by
  rw [← (mirrors_restored t totalBytes).spans_eq]
  exact h

/-! ## What a start leaves behind -/

/-- The rows are those from before, or none of them has progress. -/
structure Start.Rows (t : SegmentTable) (start : Start) : Prop where
  kept : start.discarded = false → start.table = t
  zero : start.discarded = true → ∀ k r, start.table.get? k = some r → r.downloadedBytes = 0
  ready : start.table.Ready

/-- Also the layout is that of the rows. -/
structure Start.Ok (t : SegmentTable) (start : Start) : Prop extends Start.Rows t start where
  layout : ∀ l, start.layout = some l → l.WF ∧ Mirrors start.table l.segments
  progress : start.discarded = false → ∀ l, start.layout = some l → ∀ k,
    (l.segments.get? k).map LiveSegment.downloadedBytes =
      (start.table.get? k).map StoredRange.downloadedBytes

private theorem Start.Rows.of_kept {t : SegmentTable} (ht : t.Ready) (layout : Option Layout) :
    Start.Rows t ⟨t, layout, false⟩ where
  kept _ := rfl
  zero h := by cases h
  ready := ht

private theorem Start.Rows.stopped {t : SegmentTable} {start : Start} (h : start.Rows t) :
    Start.Ok t { start with layout := none } where
  kept := h.kept
  zero := h.zero
  ready := h.ready
  layout l hl := by cases hl
  progress _ l hl := by cases hl

/-- Rows without progress. -/
theorem Start.Ok.of_discarded {t t' : SegmentTable} {layout : Option Layout} (hready : t'.Ready)
    (hzero : ∀ k r, t'.get? k = some r → r.downloadedBytes = 0)
    (hlayout : ∀ l, layout = some l → l.WF ∧ Mirrors t' l.segments) :
    Start.Ok t ⟨t', layout, true⟩ where
  kept h := by cases h
  zero _ := hzero
  ready := hready
  layout := hlayout
  progress h := by cases h

/-- The restored layout of rows that cover the file. -/
theorem Start.Ok.of_restored {t : SegmentTable} (ht : t.Ready) {total : Int}
    (haccepted : validateCoverage (Layout.restored t.loadSegments total).segments total = .ok ()) :
    Start.Ok t ⟨t, some (Layout.restored t.loadSegments total), false⟩ where
  kept _ := rfl
  zero h := by cases h
  ready := ht
  layout l hl := by
    obtain rfl := Option.some.inj hl
    exact ⟨ht.wf_restored haccepted, mirrors_restored t total⟩
  progress _ l hl k := by
    obtain rfl := Option.some.inj hl
    exact downloaded_restored t total k

private theorem ready_fresh {count totalBytes : Int} (hcount : 1 ≤ count)
    (htotal : count ≤ totalBytes) (hmax : count ≤ i32Max) :
    SegmentTable.Ready
      (SegmentTable.insertSegments SortedMap.empty (buildFreshSegments count totalBytes).2) where
  tiled := by
    right
    refine ⟨totalBytes, by omega, ?_⟩
    rw [(mirrors_fresh count totalBytes).spans_eq]
    exact tiles_buildFreshSegments hcount htotal
  rows k r h := by
    have hsome := (mirrors_fresh count totalBytes).isSome k
    rw [h] at hsome
    obtain ⟨seg, hseg⟩ := Option.isSome_iff_exists.mp hsome.symm
    have hkey := (get?_buildFreshSegments hseg).1
    have hzero := rows_insertSegments _ k r h
    omega

/-- A file planned anew has a layout of the size it was planned for. -/
theorem Start.rebuild_ok {t : SegmentTable} {start : Start} (h : start.Rows t)
    {input : StartInput} (answers : StartAnswers) {count : Int} (hcount : 1 ≤ count)
    (htotal : count ≤ input.totalBytes) (hmax : count ≤ i32Max) :
    (start.rebuild input answers count input.totalBytes).Ok t := by
  unfold Start.rebuild
  dsimp only
  split
  · exact h.stopped
  split
  · apply Start.Ok.of_discarded SegmentTable.ready_empty
    · intro k r hr
      simp at hr
    · intro l hl
      cases hl
  · apply Start.Ok.of_discarded (ready_fresh hcount htotal hmax) (rows_insertSegments _)
    intro l hl
    split at hl
    · cases hl
    · obtain rfl := Option.some.inj hl
      exact ⟨(Layout.Initial.fresh count input.totalBytes hcount htotal).wf,
        mirrors_fresh count input.totalBytes⟩

/-- The planned layout is that of the rows, well-formed unless it is the stored one for the size
reported now. -/
theorem plan_rows {t : SegmentTable} (ht : t.Ready) {input : StartInput}
    (answers : StartAnswers) {count : Int} (hcount : 1 ≤ count)
    (htotal : count ≤ input.totalBytes) (hmax : count ≤ i32Max) :
    (Start.plan t input answers count).Ok t ∨
      Start.plan t input answers count =
        ⟨t, some (Layout.restored t.loadSegments input.totalBytes), false⟩ := by
  unfold Start.plan
  dsimp only
  split
  · next hempty =>
    have hnil : t = SortedMap.empty := by
      apply SortedMap.ext_get?
      intro k
      have hentries : t.entries = [] := List.map_eq_nil_iff.mp (List.isEmpty_iff.mp hempty)
      rw [SortedMap.get?, hentries]
      rfl
    left
    split
    · have hone : 1 ≤ (if input.sizeIsEstimate then 1 else count) ∧
          (if input.sizeIsEstimate then 1 else count) ≤ count := by
        split <;> omega
      generalize (if input.sizeIsEstimate then 1 else count) = planCount at hone
      rw [hnil]
      apply Start.Ok.of_discarded (ready_fresh hone.1 (by omega) (by omega))
        (rows_insertSegments _)
      intro l hl
      obtain rfl := Option.some.inj hl
      exact ⟨(Layout.Initial.fresh planCount input.totalBytes hone.1 (by omega)).wf,
        mirrors_fresh planCount input.totalBytes⟩
    · apply Start.Ok.of_discarded ht
      · intro k r hr
        rw [hnil] at hr
        simp at hr
      · intro l hl
        cases hl
  · next hrows =>
    have hkept := Start.Rows.of_kept ht (some (Layout.restored t.loadSegments input.totalBytes))
    split
    · left
      split
      · split
        · exact hkept.stopped
        · -- The stored size is the one the rows cover.
          rcases ht.tiled with hnil | ⟨total, hpos, htiles⟩
          · rw [SegmentTable.loadSegments, hnil] at hrows
            exact absurd rfl hrows
          have hrestored := SegmentTable.Tiled.restored htiles input.totalBytes
          rw [Start.dbTotal_of_tiles hrestored hpos]
          exact Start.Ok.of_restored ht (validateCoverage_of_tiles hrestored hpos)
      · exact Start.rebuild_ok hkept answers hcount htotal hmax
    · exact Or.inr rfl

private theorem checkCoverage_ok {t : SegmentTable} (ht : t.Ready) {input : StartInput}
    (answers : StartAnswers) {count : Int} (hcount : 1 ≤ count)
    (htotal : count ≤ input.totalBytes) (hmax : count ≤ i32Max) {start : Start}
    (h : start.Ok t ∨
      start = ⟨t, some (Layout.restored t.loadSegments input.totalBytes), false⟩) :
    (start.checkCoverage input answers count).Ok t := by
  rcases h with h | rfl
  · unfold Start.checkCoverage
    split
    · exact h
    · next l hl =>
      have hwf := (h.layout l hl).1
      rw [validateCoverage_of_tiles hwf.tiles hwf.positive]
      exact h
  · have hkept := Start.Rows.of_kept ht (some (Layout.restored t.loadSegments input.totalBytes))
    unfold Start.checkCoverage
    dsimp only
    split
    · next _ haccepted => exact Start.Ok.of_restored ht haccepted
    · exact Start.rebuild_ok hkept answers hcount htotal hmax

private theorem shape_withoutProgress (l : Layout) :
    shape (Start.withoutProgress l).segments = shape l.segments := by
  apply SortedMap.ext_get?
  intro k
  rw [get?_shape, get?_shape, Start.withoutProgress, SortedMap.get?_mapValues, Option.map_map]
  rfl

private theorem span_resetSegmentsProgress (t : SegmentTable) (k : Int) :
    (t.resetSegmentsProgress.get? k).map StoredRange.span = (t.get? k).map StoredRange.span := by
  rw [SegmentTable.resetSegmentsProgress, SortedMap.get?_mapValues, Option.map_map]
  rfl

/-- The ranges of the rows follow from the range of each row. -/
theorem spans_eq_of_span {t t' : SegmentTable}
    (h : ∀ k, (t'.get? k).map StoredRange.span = (t.get? k).map StoredRange.span) :
    t'.spans = t.spans :=
  SortedMap.values_map_congr h

private theorem ready_reset {t : SegmentTable} (h : t.Ready) : t.resetSegmentsProgress.Ready where
  tiled := by
    rcases h.tiled with hnil | ⟨total, hpos, htiles⟩
    · left
      exact List.map_eq_nil_iff.mpr hnil
    · right
      rw [spans_eq_of_span (span_resetSegmentsProgress t)]
      exact ⟨total, hpos, htiles⟩
  rows k r hr := by
    rw [SegmentTable.resetSegmentsProgress, SortedMap.get?_mapValues] at hr
    obtain ⟨old, hold, rfl⟩ := Option.map_eq_some_iff.mp hr
    exact ⟨(h.rows k old hold).1, le_refl _⟩

private theorem checkFile_ok {t : SegmentTable} {start : Start} (h : start.Ok t)
    (input : StartInput) (answers : StartAnswers) : (start.checkFile input answers).Ok t := by
  unfold Start.checkFile
  split
  · exact h
  next l hl =>
  split
  · exact h.stopped
  next fileLen _ =>
  dsimp only
  split
  · split
    · apply Start.Ok.of_discarded (ready_reset h.ready)
      · intro k r hr
        rw [SegmentTable.resetSegmentsProgress, SortedMap.get?_mapValues] at hr
        obtain ⟨old, -, rfl⟩ := Option.map_eq_some_iff.mp hr
        rfl
      · intro l' hl'
        split at hl'
        · obtain rfl := Option.some.inj hl'
          obtain ⟨hwf, hmirrors⟩ := h.layout l hl
          have hshape := shape_withoutProgress l
          constructor
          · apply LayoutChange.wf hwf
            apply LayoutChange.touch hshape rfl rfl
            intro k seg hk
            rw [Start.withoutProgress, SortedMap.get?_mapValues] at hk
            obtain ⟨old, -, rfl⟩ := Option.map_eq_some_iff.mp hk
            exact le_refl (0 : Int)
          · have hreset : Mirrors start.table.resetSegmentsProgress l.segments := fun k ↦
              (span_resetSegmentsProgress start.table k).trans (hmirrors k)
            exact hreset.of_shape hshape
        · cases hl'
    · exact h.stopped
  · exact h

private theorem prepareFile_ok {t : SegmentTable} {start : Start} (h : start.Ok t)
    (answers : StartAnswers) : (start.prepareFile answers).Ok t := by
  unfold Start.prepareFile
  split
  · exact h
  · exact h.stopped

/-- Whatever fails, a start leaves rows that cover one file or none at all, and a layout it
returns is theirs. -/
theorem startCoordinator_ok {t : SegmentTable} (ht : t.Ready) {input : StartInput}
    (hmax : input.initialSegmentCount ≤ i32Max) (answers : StartAnswers) :
    (startCoordinator t input answers).Ok t := by
  unfold startCoordinator
  split
  · next hgo =>
    have hvalid : 0 < input.totalBytes ∧ 1 ≤ input.initialSegmentCount := by
      simp only [StartInput.takesOver, StartInput.valid, Bool.and_eq_true, decide_eq_true_eq] at hgo
      exact hgo.1.1
    have hcount : 1 ≤ input.count ∧ input.count ≤ input.totalBytes ∧ input.count ≤ i32Max := by
      unfold StartInput.count
      split <;> omega
    apply prepareFile_ok
    apply checkFile_ok
    apply checkCoverage_ok ht answers hcount.1 hcount.2.1 hcount.2.2
    exact plan_rows ht answers hcount.1 hcount.2.1 hcount.2.2
  · exact (Start.Rows.of_kept ht none).stopped

/-- A start returns a layout only after it took the rows over. -/
theorem takesOver_of_layout {t : SegmentTable} {input : StartInput} {answers : StartAnswers}
    {l : Layout} (h : (startCoordinator t input answers).layout = some l) :
    input.takesOver answers = true := by
  unfold startCoordinator at h
  split at h
  · next hgo => exact (Bool.and_eq_true_iff.mp hgo).1
  · cases h

/-- A start that does not take the rows over leaves everything. -/
theorem startCoordinator_of_not_takesOver (t : SegmentTable) {input : StartInput}
    {answers : StartAnswers} (h : input.takesOver answers = false) :
    startCoordinator t input answers = ⟨t, none, false⟩ := by
  unfold startCoordinator
  rw [h, Bool.false_and]
  rfl

/-- Progress is kept only where the file is as long as planned. -/
theorem fileLen_of_kept {t : SegmentTable} {input : StartInput} {answers : StartAnswers}
    {l : Layout} (hkept : (startCoordinator t input answers).discarded = false)
    (h : (startCoordinator t input answers).layout = some l)
    (hprogress : 0 < (l.segments.values.map LiveSegment.downloadedBytes).sum) :
    ∃ fileLen, input.fileLen = some fileLen ∧ l.effectiveTotalBytes ≤ fileLen := by
  unfold startCoordinator at hkept h
  split at h
  · next hgo =>
    rw [if_pos hgo] at hkept
    generalize (Start.plan t input answers input.count).checkCoverage input answers
      input.count = start at hkept h
    -- Preparing the file changes no layout it returns.
    unfold Start.prepareFile at hkept h
    split at h
    · next hprepared =>
      rw [if_pos hprepared] at hkept
      unfold Start.checkFile at hkept h
      split at h
      · next hnone =>
        rw [hnone] at h
        cases h
      next l' hl' =>
      split at h
      · cases h
      next fileLen hfile =>
      rw [hl'] at hkept
      simp only [hfile] at hkept
      dsimp only at h
      split at h
      · next hshort =>
        rw [if_pos hshort] at hkept
        split at h
        · next hreset =>
          rw [if_pos hreset] at hkept
          cases hkept
        · cases h
      · next hlong =>
        rw [hl'] at h
        obtain rfl := Option.some.inj h
        refine ⟨fileLen, hfile, ?_⟩
        by_contra hless
        apply hlong
        exact ⟨hprogress, Or.inr (Or.inr (by omega))⟩
    · cases h
  · cases h

/-- Every call to the database succeeds. -/
def StartAnswers.succeed : StartAnswers :=
  ⟨true, true, true, true, true, true, true, true, true, true⟩

/-- A start that finds the size it knows and a file of that size goes on from the rows. -/
theorem startCoordinator_resumes {t : SegmentTable} {total : Int} (hpos : 0 < total)
    (htiles : Tiles t.spans 0 total) {input : StartInput} (hsame : input.totalBytes = total)
    (hcount : 1 ≤ input.initialSegmentCount) {fileLen : Int} (hfile : input.fileLen = some fileLen)
    (hlong : total ≤ fileLen)
    (hsum : (t.values.map StoredRange.downloadedBytes).sum ≤ fileLen) :
    startCoordinator t input .succeed =
      ⟨t, some (Layout.restored t.loadSegments total), false⟩ := by
  have hgo : (input.takesOver .succeed && StartAnswers.succeed.loadSegments) = true := by
    simp only [StartInput.takesOver, StartInput.valid, StartAnswers.succeed, Bool.and_true,
      Bool.and_eq_true, decide_eq_true_eq]
    omega
  have hrestored := SegmentTable.Tiled.restored htiles total
  have hplan : Start.plan t input .succeed input.count =
      ⟨t, some (Layout.restored t.loadSegments total), false⟩ := by
    have hrows : ¬ t.loadSegments.isEmpty = true := by
      intro hempty
      have hentries : t.entries = [] := List.map_eq_nil_iff.mp (List.isEmpty_iff.mp hempty)
      obtain ⟨span, hspan, -⟩ := htiles.exists_contains (le_refl 0) hpos
      rw [SegmentTable.spans, SortedMap.values, hentries] at hspan
      exact absurd hspan List.not_mem_nil
    unfold Start.plan
    dsimp only
    rw [if_neg hrows, hsame, Start.dbTotal_of_tiles hrestored hpos, if_neg (lt_irrefl _)]
  have hdownloaded : ((Layout.restored t.loadSegments total).segments.values.map
      LiveSegment.downloadedBytes).sum = (t.values.map StoredRange.downloadedBytes).sum := by
    rw [SortedMap.values_map_congr (downloaded_restored t total)]
  have hcoverage := validateCoverage_of_tiles hrestored hpos
  have htotal : (Layout.restored t.loadSegments total).effectiveTotalBytes = total := rfl
  unfold startCoordinator
  rw [if_pos hgo, hplan]
  have hchecked : Start.checkCoverage ⟨t, some (Layout.restored t.loadSegments total), false⟩ input
      .succeed input.count = ⟨t, some (Layout.restored t.loadSegments total), false⟩ := by
    unfold Start.checkCoverage
    dsimp only
    rw [htotal, hcoverage]
  have hlongEnough : Start.checkFile ⟨t, some (Layout.restored t.loadSegments total), false⟩ input
      .succeed = ⟨t, some (Layout.restored t.loadSegments total), false⟩ := by
    unfold Start.checkFile
    simp only [hfile]
    rw [if_neg]
    rw [hdownloaded, htotal]
    omega
  rw [hchecked, hlongEnough]
  rfl

end Engine
