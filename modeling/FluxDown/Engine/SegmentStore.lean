import FluxDown.Base.Covered
import FluxDown.Engine.SegmentResume

/-!
# Segment rows over runs

Library `Engine`. The rows of a download over its coordinators: each start takes the rows over,
each change of the layout is stored or ends the coordinator, progress is written by workers whose
writes may arrive late, and the process can crash between any two steps. `onDisk` is a ghost, the
ranges of the file that a completed sync has put on disk. At every moment the rows cover the file
once or are empty, and they count only bytes that are on disk.
-/

namespace Engine

open Base

/-- A progress write on its way to the database: the token of its coordinator, and rows of index,
bytes and start. -/
structure ProgressWrite where
  epoch : Int
  batch : Bool
  rows : List (Int × Int × Int)

/-- The rows of a task and the coordinator that runs, if one does. -/
structure SegmentStore where
  table : SegmentTable
  segmentsEpoch : Int
  /-- Coordinators started in this process, of all tasks. -/
  generation : Int
  spawnGen : Int
  layout : Option Layout
  /-- A change of the layout could not be stored; the coordinator only ends. -/
  closing : Bool
  inFlight : List ProgressWrite
  onDisk : List Span

/-- A step of the store. -/
inductive StoreOp where
  /-- Start a coordinator, after starts for other tasks. -/
  | start (others : Nat) (input : StartInput) (answers : StartAnswers)
  /-- Change the layout and store the change if the database takes it. -/
  | change (op : LayoutOp) (stored : Bool)
  /-- A sync of the file completes. -/
  | sync (range : Span)
  /-- A worker or the coordinator writes progress. -/
  | report (batch : Bool) (rows : List (Int × Int × Int))
  /-- A progress write arrives. -/
  | deliver (n : Nat)
  /-- A progress write fails. -/
  | lose (n : Nat)
  /-- The coordinator has all bytes and stores the progress of its segments if the database takes
  it. -/
  | flush (stored : Bool)
  /-- The coordinator returns. -/
  | stop
  /-- The process ends. -/
  | crash

/-- The progress of every segment (`src/native/engine/src/segment_coordinator.rs:4137–4140`). -/
def Layout.flushUpdates (l : Layout) : List (Int × Int) :=
  l.segments.values.map fun s ↦ (s.index, s.downloadedBytes)

namespace SegmentStore

/-- A task that was never started. -/
def initial : SegmentStore where
  table := SortedMap.empty
  segmentsEpoch := 0
  generation := 0
  spawnGen := 0
  layout := none
  closing := false
  inFlight := []
  onDisk := []

/-- Start a coordinator; the guard of the file refuses a second one with an error
(`src/native/engine/src/temp_file_guard.rs:42–63`, `segment_coordinator.rs:1640–1945`). -/
def start (s : SegmentStore) (others : Nat) (input : StartInput) (answers : StartAnswers) :
    SegmentStore :=
  if s.layout.isSome then s
  else
    let generation := s.generation + others + 1
    let started := startCoordinator s.table input answers
    { s with
      table := started.table
      segmentsEpoch := if input.takesOver answers then generation else s.segmentsEpoch
      generation := generation
      spawnGen := generation
      layout := started.layout
      closing := false
      onDisk :=
        if started.discarded then []
        else match started.layout with
          | none => s.onDisk
          | some l => clip (min (input.fileLen.getD 0) l.effectiveTotalBytes) s.onDisk }

/-- Change the layout (`segment_coordinator.rs:2391–2403`, `2470–2485`). -/
def change (s : SegmentStore) (op : LayoutOp) (stored : Bool) : SegmentStore :=
  if s.closing then s
  else match s.layout with
    | none => s
    | some l =>
      match l.persist s.table op with
      | none => { s with layout := some (l.step op) }
      | some none => { s with layout := some (l.step op), closing := true }
      | some (some table) =>
        if stored then { s with table := table, layout := some (l.step op) }
        else { s with layout := some (l.step op), closing := true }

/-- A progress write counts only for the coordinator that owns the rows
(`src/native/engine/src/db.rs:3022–3047`, `3053–3087`). -/
def applyWrite (s : SegmentStore) (w : ProgressWrite) : SegmentTable :=
  if w.epoch = s.segmentsEpoch then
    w.rows.foldl (fun t row ↦ t.updateProgress w.batch row) s.table
  else s.table

/-- Store the progress of the layout in one transaction (`segment_coordinator.rs:4133–4141`). -/
def flush (s : SegmentStore) (stored : Bool) : SegmentStore :=
  if s.closing then s
  else match s.layout with
    | none => s
    | some l =>
      if stored then { s with table := s.table.flushSegmentsProgress l.flushUpdates } else s

/-- One step. -/
def step (s : SegmentStore) : StoreOp → SegmentStore
  | .start others input answers => s.start others input answers
  | .change op stored => s.change op stored
  | .sync range => { s with onDisk := range :: s.onDisk }
  | .report batch rows =>
    if s.layout.isSome then { s with inFlight := s.inFlight ++ [⟨s.spawnGen, batch, rows⟩] } else s
  | .deliver n => match s.inFlight[n]? with
    | none => s
    | some w => { s with table := s.applyWrite w, inFlight := s.inFlight.eraseIdx n }
  | .lose n => { s with inFlight := s.inFlight.eraseIdx n }
  | .flush stored => s.flush stored
  | .stop => { s with layout := none, closing := false }
  | .crash => { s with layout := none, closing := false, inFlight := [], generation := 0 }

/-- What a step may rely on: an index is left, a count is an `i32`, and progress is reported and
flushed only up to where a sync has reached, in the planned file. -/
def Admissible (s : SegmentStore) : StoreOp → Prop
  | .start _ input _ => input.initialSegmentCount ≤ i32Max
  | .change op _ => ∀ l, s.layout = some l → op.Admissible l
  | .report _ rows => ∀ row ∈ rows, 0 ≤ row.2.1 ∧ Covers s.onDisk row.2.2 (row.2.2 + row.2.1)
  | .flush _ => ∀ l, s.layout = some l → ∀ seg ∈ l.segments.values,
    seg.startByte + seg.downloadedBytes ≤ l.effectiveTotalBytes ∧
      Covers s.onDisk seg.startByte (seg.startByte + seg.downloadedBytes)
  | _ => True

end SegmentStore

/-! ## Rows that count only what is on disk -/

/-- Rows a coordinator can go on from. -/
structure SegmentTable.Durable (onDisk : List Span) (t : SegmentTable) : Prop extends t.Ready where
  inFile : ∀ total, 0 < total → Tiles t.spans 0 total → ∀ k r, t.get? k = some r →
    r.startByte + r.downloadedBytes ≤ total
  covered : ∀ k r, t.get? k = some r →
    Covers onDisk r.startByte (r.startByte + r.downloadedBytes)

namespace SegmentTable.Durable

variable {onDisk onDisk' : List Span} {t : SegmentTable}

private theorem mono (h : t.Durable onDisk) (hsub : onDisk ⊆ onDisk') : t.Durable onDisk' where
  tiled := h.tiled
  rows := h.rows
  inFile := h.inFile
  covered k r hr := (h.covered k r hr).mono hsub

/-- Rows without progress count nothing. -/
theorem of_zero (h : t.Ready) (hzero : ∀ k r, t.get? k = some r → r.downloadedBytes = 0)
    (onDisk : List Span) : t.Durable onDisk where
  tiled := h.tiled
  rows := h.rows
  inFile total _ htiles k r hr := by
    have hspan : r.span ∈ t.spans := List.mem_map_of_mem (t.mem_values_iff.mpr ⟨k, hr⟩)
    have hstart : r.startByte ≤ r.endByte := htiles.nonempty _ hspan
    have hend : r.endByte < total := (htiles.bounds hspan).2
    rw [hzero k r hr]
    omega
  covered k r hr := by
    rw [hzero k r hr]
    exact Covers.of_le _ (by omega)

end SegmentTable.Durable

/-- A write of progress moves no boundary. -/
theorem span_updateProgress (t : SegmentTable) (batch : Bool) (row : Int × Int × Int) (k : Int) :
    ((t.updateProgress batch row).get? k).map StoredRange.span =
      (t.get? k).map StoredRange.span := by
  obtain ⟨index, bytes, startByte⟩ := row
  simp only [SegmentTable.updateProgress, SortedMap.get?_modify]
  split
  · cases t.get? k with
    | none => rfl
    | some r =>
      simp only [Option.map_some]
      cases batch <;> split <;> rfl
  · rfl

/-- A written row has its old progress, or progress of the write within its range. -/
theorem updateProgress_cases {t : SegmentTable} {batch : Bool} {row : Int × Int × Int}
    {k : Int} {r' : StoredRange} (h : (t.updateProgress batch row).get? k = some r') :
    ∃ r, t.get? k = some r ∧ r'.span = r.span ∧
      (r'.downloadedBytes = r.downloadedBytes ∨
        r.startByte = row.2.2 ∧ r'.downloadedBytes = min row.2.1 r.length) := by
  obtain ⟨index, bytes, startByte⟩ := row
  simp only [SegmentTable.updateProgress, SortedMap.get?_modify] at h
  split at h
  · obtain ⟨r, hr, rfl⟩ := Option.map_eq_some_iff.mp h
    refine ⟨r, hr, ?_⟩
    split
    · next hstart =>
      cases batch with
      | false =>
        refine ⟨rfl, Or.inr ⟨hstart, ?_⟩⟩
        show (if r.length < bytes then r.length else bytes) = min bytes r.length
        split <;> omega
      | true =>
        refine ⟨rfl, ?_⟩
        show (if r.length < bytes then r.length
          else if bytes < r.downloadedBytes then r.downloadedBytes else bytes) =
            r.downloadedBytes ∨ r.startByte = startByte ∧
          (if r.length < bytes then r.length
            else if bytes < r.downloadedBytes then r.downloadedBytes else bytes) =
              min bytes r.length
        split
        · right
          omega
        split
        · exact Or.inl rfl
        · right
          omega
    · exact ⟨rfl, Or.inl rfl⟩
  · exact ⟨r', h, rfl, Or.inl rfl⟩

/-- The final flush moves no boundary. -/
theorem span_flush (t : SegmentTable) (updates : List (Int × Int)) (k : Int) :
    ((t.flushSegmentsProgress updates).get? k).map StoredRange.span =
      (t.get? k).map StoredRange.span := by
  induction updates generalizing t with
  | nil => rfl
  | cons row updates ih =>
    rw [SegmentTable.flushSegmentsProgress, List.foldl_cons, ← SegmentTable.flushSegmentsProgress,
      ih, SortedMap.get?_modify]
    split
    · cases t.get? k <;> rfl
    · rfl

/-- A flushed row has its old progress or that of one of the updates. -/
theorem flush_cases {updates : List (Int × Int)} {k : Int} {r' : StoredRange} :
    ∀ {t : SegmentTable}, (t.flushSegmentsProgress updates).get? k = some r' →
      ∃ r, t.get? k = some r ∧ r'.span = r.span ∧
        (r'.downloadedBytes = r.downloadedBytes ∨ (k, r'.downloadedBytes) ∈ updates) := by
  induction updates with
  | nil => exact fun h ↦ ⟨r', h, rfl, Or.inl rfl⟩
  | cons row updates ih =>
    intro t h
    rw [SegmentTable.flushSegmentsProgress, List.foldl_cons,
      ← SegmentTable.flushSegmentsProgress] at h
    obtain ⟨mid, hmid, hspan, hprogress⟩ := ih h
    rw [SortedMap.get?_modify] at hmid
    split at hmid
    · next hk =>
      obtain ⟨r, hr, rfl⟩ := Option.map_eq_some_iff.mp hmid
      refine ⟨r, hr, hspan, Or.inr ?_⟩
      rcases hprogress with heq | hmem
      · rw [heq, hk]
        exact List.mem_cons_self
      · exact List.mem_cons_of_mem _ hmem
    · exact ⟨mid, hmid, hspan, hprogress.imp_right (List.mem_cons_of_mem _)⟩

namespace SegmentTable.Durable

variable {onDisk : List Span} {t : SegmentTable}

/-- Rows of the same ranges whose progress is old or on disk count only what is on disk. -/
theorem of_progress (h : t.Durable onDisk) {t' : SegmentTable}
    (hspans : ∀ k, (t'.get? k).map StoredRange.span = (t.get? k).map StoredRange.span)
    (hrows : ∀ k r', t'.get? k = some r' → ∃ r, t.get? k = some r ∧ r'.span = r.span ∧
      (r'.downloadedBytes = r.downloadedBytes ∨ 0 ≤ r'.downloadedBytes ∧
        (∀ total, 0 < total → Tiles t.spans 0 total → r.startByte + r'.downloadedBytes ≤ total) ∧
        Covers onDisk r.startByte (r.startByte + r'.downloadedBytes))) : t'.Durable onDisk := by
  have heq := spans_eq_of_span hspans
  refine ⟨⟨?_, fun k r' hr' ↦ ?_⟩, fun total hpos htiles k r' hr' ↦ ?_, fun k r' hr' ↦ ?_⟩
  · rcases h.tiled with hnil | hsome
    · left
      have hvalues : t'.spans = [] := by
        rw [heq, SegmentTable.spans, SortedMap.values, hnil]
        rfl
      exact List.map_eq_nil_iff.mp (List.map_eq_nil_iff.mp hvalues)
    · right
      rw [heq]
      exact hsome
  · obtain ⟨r, hr, -, hprogress⟩ := hrows k r' hr'
    obtain ⟨hkey, hold⟩ := h.rows k r hr
    refine ⟨hkey, ?_⟩
    rcases hprogress with hsame | ⟨hnonneg, -⟩
    · omega
    · exact hnonneg
  · obtain ⟨r, hr, hspan, hprogress⟩ := hrows k r' hr'
    have hstart : r'.startByte = r.startByte := congrArg Span.lo hspan
    rw [heq] at htiles
    rcases hprogress with hsame | ⟨-, hin, -⟩
    · rw [hstart, hsame]
      exact h.inFile total hpos htiles k r hr
    · rw [hstart]
      exact hin total hpos htiles
  · obtain ⟨r, hr, hspan, hprogress⟩ := hrows k r' hr'
    have hstart : r'.startByte = r.startByte := congrArg Span.lo hspan
    rw [hstart]
    rcases hprogress with hsame | ⟨-, -, hcovers⟩
    · rw [hsame]
      exact h.covered k r hr
    · exact hcovers

/-- A write of progress that is on disk counts only what is on disk. -/
theorem updateProgress (h : t.Durable onDisk) (batch : Bool) {row : Int × Int × Int}
    (hrow : 0 ≤ row.2.1 ∧ Covers onDisk row.2.2 (row.2.2 + row.2.1)) :
    (t.updateProgress batch row).Durable onDisk := by
  refine h.of_progress (span_updateProgress t batch row) fun k r' hr' ↦ ?_
  obtain ⟨r, hr, hspan, hprogress⟩ := updateProgress_cases hr'
  refine ⟨r, hr, hspan, hprogress.imp_right fun ⟨hmatch, heq⟩ ↦ ?_⟩
  have hrange : r.span ∈ t.spans := List.mem_map_of_mem (t.mem_values_iff.mpr ⟨k, hr⟩)
  rw [heq]
  refine ⟨?_, fun total _ htiles ↦ ?_, ?_⟩
  · have hnonempty : r.startByte ≤ r.endByte := by
      rcases h.tiled with hnil | ⟨total, -, htiles⟩
      · have hmem := t.get?_eq_some_iff.mp hr
        rw [hnil] at hmem
        exact absurd hmem List.not_mem_nil
      · exact htiles.nonempty _ hrange
    rw [StoredRange.length]
    omega
  · have hend : r.endByte < total := (htiles.bounds hrange).2
    rw [StoredRange.length]
    omega
  · rw [hmatch]
    exact hrow.2.shrink (le_refl _) (by omega)

/-- The final flush of segments that are on disk counts only what is on disk. -/
theorem flush (h : t.Durable onDisk) {l : Layout} (hwf : l.WF) (hmirrors : Mirrors t l.segments)
    (hsegments : ∀ seg ∈ l.segments.values,
      seg.startByte + seg.downloadedBytes ≤ l.effectiveTotalBytes ∧
        Covers onDisk seg.startByte (seg.startByte + seg.downloadedBytes)) :
    (t.flushSegmentsProgress l.flushUpdates).Durable onDisk := by
  have htiles' : Tiles t.spans 0 l.effectiveTotalBytes := by
    rw [hmirrors.spans_eq]
    exact hwf.tiles
  refine h.of_progress (span_flush t _) fun k r' hr' ↦ ?_
  obtain ⟨r, hr, hspan, hprogress⟩ := flush_cases hr'
  refine ⟨r, hr, hspan, hprogress.imp_right fun hmem ↦ ?_⟩
  obtain ⟨seg, hseg, heq⟩ := List.mem_map.mp hmem
  obtain ⟨k', hget⟩ := l.segments.mem_values_iff.mp hseg
  obtain rfl : k' = k := (hwf.keyed k' seg hget).symm.trans (congrArg Prod.fst heq)
  have hbytes : seg.downloadedBytes = r'.downloadedBytes := congrArg Prod.snd heq
  have hstart : r.startByte = seg.startByte := by
    have hsame := hmirrors k'
    rw [hr, hget, Option.map_some, Option.map_some, Option.some.injEq] at hsame
    exact congrArg Span.lo hsame
  obtain ⟨hin, hcovers⟩ := hsegments seg hseg
  rw [← hbytes, hstart]
  refine ⟨hwf.progress k' seg hget, fun total hpos htiles ↦ ?_, hcovers⟩
  rw [htiles.end_unique htiles' hpos hwf.positive]
  exact hin

private theorem updateAll (h : t.Durable onDisk) (batch : Bool) {rows : List (Int × Int × Int)}
    (hrows : ∀ row ∈ rows, 0 ≤ row.2.1 ∧ Covers onDisk row.2.2 (row.2.2 + row.2.1)) :
    (rows.foldl (fun t row ↦ t.updateProgress batch row) t).Durable onDisk := by
  induction rows generalizing t with
  | nil => exact h
  | cons row rows ih =>
    rw [List.foldl_cons]
    apply ih (h.updateProgress batch (hrows row List.mem_cons_self))
    intro row' hrow'
    exact hrows row' (List.mem_cons_of_mem _ hrow')

/-- A stored change of the layout counts nothing new. -/
theorem stored (h : t.Durable onDisk) {l l' : Layout} (hwf : l.WF) (hwf' : l'.WF)
    (hnext : l.nextIndex < i32Max) (htotal : l.effectiveTotalBytes ≤ l'.effectiveTotalBytes)
    (hmirrors : Mirrors t l.segments) {t' : SegmentTable} (hmirrors' : Mirrors t' l'.segments)
    (hstored : Stored l.nextIndex t t') : t'.Durable onDisk := by
  have htiles : Tiles t.spans 0 l.effectiveTotalBytes := by
    rw [hmirrors.spans_eq]
    exact hwf.tiles
  have htiles' : Tiles t'.spans 0 l'.effectiveTotalBytes := by
    rw [hmirrors'.spans_eq]
    exact hwf'.tiles
  refine ⟨⟨Or.inr ⟨_, hwf'.positive, htiles'⟩, fun k r' hr' ↦ ⟨?_, ?_⟩⟩,
    fun total hpos hagain k r' hr' ↦ ?_, fun k r' hr' ↦ ?_⟩
  · rcases hstored.keys k (Option.isSome_of_eq_some hr') with hk | hk
    · omega
    · obtain ⟨r, hr⟩ := Option.isSome_iff_exists.mp hk
      exact (h.rows k r hr).1
  · rcases hstored.rows k r' hr' with hzero | ⟨r, hr, -, heq⟩
    · exact hzero.ge
    · rw [heq]
      exact (h.rows k r hr).2
  · have hspan : r'.span ∈ t'.spans := List.mem_map_of_mem (t'.mem_values_iff.mpr ⟨k, hr'⟩)
    have hstart : r'.startByte ≤ r'.endByte := hagain.nonempty _ hspan
    have hend : r'.endByte < total := (hagain.bounds hspan).2
    have hsame := hagain.end_unique htiles' hpos hwf'.positive
    rcases hstored.rows k r' hr' with hzero | ⟨r, hr, heq, hprogress⟩
    · omega
    · have hold := h.inFile _ hwf.positive htiles k r hr
      omega
  · rcases hstored.rows k r' hr' with hzero | ⟨r, hr, heq, hprogress⟩
    · exact Covers.of_le _ (by omega)
    · rw [heq, hprogress]
      exact h.covered k r hr

end SegmentTable.Durable

private theorem mirrors_updateAll {t : SegmentTable} {segments : SegmentMap}
    (h : Mirrors t segments) (batch : Bool) (rows : List (Int × Int × Int)) :
    Mirrors (rows.foldl (fun t row ↦ t.updateProgress batch row) t) segments := by
  induction rows generalizing t with
  | nil => exact h
  | cons row rows ih =>
    rw [List.foldl_cons]
    apply ih
    intro k
    rw [span_updateProgress]
    exact h k

/-- No operation makes the planned file smaller. -/
theorem Layout.total_le_step {l : Layout} (hwf : l.WF) {op : LayoutOp} (hop : op.Admissible l) :
    l.effectiveTotalBytes ≤ (l.step op).effectiveTotalBytes := by
  have hchange : ∀ {l l' : Layout}, LayoutChange l l' →
      l.effectiveTotalBytes ≤ l'.effectiveTotalBytes := by
    intro l l' h
    cases h with
    | touch _ _ htotal _ => exact htotal.ge
    | cut _ _ _ _ _ _ _ _ _ _ _ _ _ _ _ _ htotal => exact htotal.ge
    | grow _ hlarger => exact hlarger.le
    | merge _ _ _ _ _ _ _ _ _ htotal => exact htotal.ge
  obtain ⟨mid, h₁, h₂⟩ := Layout.step_changes hwf hop
  exact le_trans (hchange h₁) (hchange h₂)

/-! ## The invariant -/

/-- The rows after a start count only what the file still has. -/
theorem durable_start {t : SegmentTable} {onDisk : List Span} (h : t.Durable onDisk)
    {input : StartInput} (hmax : input.initialSegmentCount ≤ i32Max) (answers : StartAnswers) :
    (startCoordinator t input answers).table.Durable
      (if (startCoordinator t input answers).discarded then []
      else match (startCoordinator t input answers).layout with
        | none => onDisk
        | some l => clip (min (input.fileLen.getD 0) l.effectiveTotalBytes) onDisk) := by
  have hok := startCoordinator_ok h.toReady hmax answers
  have hfile := @fileLen_of_kept t input answers
  generalize startCoordinator t input answers = started at hok hfile
  cases hdiscarded : started.discarded with
  | true => exact .of_zero hok.ready (hok.zero hdiscarded) []
  | false =>
    obtain rfl := hok.kept hdiscarded
    cases hlayout : started.layout with
    | none => exact h
    | some l =>
      obtain ⟨hwf, hmirrors⟩ := hok.layout l hlayout
      refine ⟨h.toReady, h.inFile, fun k r hr ↦ ?_⟩
      rcases le_or_gt r.downloadedBytes 0 with hzero | hprogress
      · exact Covers.of_le _ (by omega)
      -- Progress was kept, so the file is as long as planned.
      have hsum : 0 < (l.segments.values.map LiveSegment.downloadedBytes).sum := by
        have hdownloaded := hok.progress hdiscarded l hlayout k
        rw [hr, Option.map_some] at hdownloaded
        obtain ⟨seg, hseg, heq⟩ := Option.map_eq_some_iff.mp hdownloaded
        have hmem : seg.downloadedBytes ∈ l.segments.values.map LiveSegment.downloadedBytes :=
          List.mem_map_of_mem (l.segments.mem_values_iff.mpr ⟨k, hseg⟩)
        have hle := List.single_le_sum (l := l.segments.values.map LiveSegment.downloadedBytes)
          (by
            intro d hd
            obtain ⟨seg', hseg', rfl⟩ := List.mem_map.mp hd
            obtain ⟨k', hk'⟩ := l.segments.mem_values_iff.mp hseg'
            exact hwf.progress k' seg' hk') _ hmem
        omega
      obtain ⟨fileLen, hlen, hlong⟩ := hfile hdiscarded hlayout hsum
      have htiles : Tiles started.table.spans 0 l.effectiveTotalBytes := by
        rw [hmirrors.spans_eq]
        exact hwf.tiles
      have hend := h.inFile _ hwf.positive htiles k r hr
      apply (h.covered k r hr).clip
      rw [hlen, Option.getD_some]
      omega

namespace SegmentStore

/-- What holds at every moment. -/
structure Sound (s : SegmentStore) : Prop where
  durable : s.table.Durable s.onDisk
  writes : ∀ w ∈ s.inFlight, w.epoch ≤ s.generation ∧ (w.epoch = s.segmentsEpoch →
    ∀ row ∈ w.rows, 0 ≤ row.2.1 ∧ Covers s.onDisk row.2.2 (row.2.2 + row.2.1))
  running : ∀ l, s.layout = some l →
    l.WF ∧ s.spawnGen = s.segmentsEpoch ∧ s.spawnGen ≤ s.generation
  mirrors : ∀ l, s.layout = some l → s.closing = false → Mirrors s.table l.segments

private theorem sound_initial : initial.Sound where
  durable := .of_zero SegmentTable.ready_empty (fun k r hr ↦ by simp at hr) []
  writes w hw := absurd hw List.not_mem_nil
  running l hl := by cases hl
  mirrors l hl := by cases hl

private theorem sound_start {s : SegmentStore} (h : s.Sound) (others : Nat) {input : StartInput}
    (hmax : input.initialSegmentCount ≤ i32Max) (answers : StartAnswers) :
    (s.start others input answers).Sound := by
  unfold start
  split
  · exact h
  have hok := startCoordinator_ok h.durable.toReady hmax answers
  refine ⟨durable_start h.durable hmax answers, fun w hw ↦ ?_, fun l hl ↦ ?_,
    fun l hl _ ↦ (hok.layout l hl).2⟩
  · obtain ⟨hold, hrows⟩ := h.writes w hw
    dsimp only
    refine ⟨by omega, fun hepoch ↦ ?_⟩
    cases htakes : input.takesOver answers with
    | true =>
      -- An old token is below the one the start has set.
      rw [htakes, if_pos rfl] at hepoch
      omega
    | false =>
      rw [htakes] at hepoch
      rw [startCoordinator_of_not_takesOver s.table htakes]
      exact hrows hepoch
  · refine ⟨(hok.layout l hl).1, ?_, le_refl _⟩
    dsimp only
    rw [if_pos (takesOver_of_layout hl)]

private theorem sound_change {s : SegmentStore} (h : s.Sound) {op : LayoutOp} (stored : Bool)
    (hop : ∀ l, s.layout = some l → op.Admissible l) : (s.change op stored).Sound := by
  unfold change
  split
  · exact h
  next hopen =>
  split
  · exact h
  next l hl =>
  obtain ⟨hwf, hgen⟩ := h.running l hl
  have hmirrors := h.mirrors l hl (by simpa using hopen)
  have hwf' := l.wf_step op hwf (hop l hl)
  have hrunning : ∀ l', some (l.step op) = some l' →
      l'.WF ∧ s.spawnGen = s.segmentsEpoch ∧ s.spawnGen ≤ s.generation := by
    intro l' hl'
    obtain rfl := Option.some.inj hl'
    exact ⟨hwf', hgen⟩
  rcases Layout.persist_spec hwf op hmirrors with ⟨heq, hmirrors'⟩ | ⟨t', heq, hmirrors', hstored⟩
  · rw [heq]
    refine ⟨h.durable, h.writes, hrunning, fun l' hl' _ ↦ ?_⟩
    obtain rfl := Option.some.inj hl'
    exact hmirrors'
  · rw [heq]
    dsimp only
    split
    · refine ⟨?_, h.writes, hrunning, fun l' hl' _ ↦ ?_⟩
      · exact h.durable.stored hwf hwf' (hop l hl).1 (Layout.total_le_step hwf (hop l hl)) hmirrors
          hmirrors' hstored
      · obtain rfl := Option.some.inj hl'
        exact hmirrors'
    · exact ⟨h.durable, h.writes, hrunning, fun l' _ hclosing ↦ by cases hclosing⟩

private theorem sound_deliver {s : SegmentStore} (h : s.Sound) (n : Nat) :
    (s.step (.deliver n)).Sound := by
  dsimp only [step]
  split
  · exact h
  next w hw =>
  have hmem := List.mem_of_getElem? hw
  refine ⟨?_, fun w' hw' ↦ h.writes w' (List.mem_of_mem_eraseIdx hw'), h.running,
    fun l hl hopen ↦ ?_⟩
  · unfold applyWrite
    split
    · next hepoch => exact h.durable.updateAll w.batch ((h.writes w hmem).2 hepoch)
    · exact h.durable
  · unfold applyWrite
    split
    · exact mirrors_updateAll (h.mirrors l hl hopen) w.batch w.rows
    · exact h.mirrors l hl hopen

private theorem sound_report {s : SegmentStore} (h : s.Sound) (batch : Bool)
    {rows : List (Int × Int × Int)}
    (hrows : ∀ row ∈ rows, 0 ≤ row.2.1 ∧ Covers s.onDisk row.2.2 (row.2.2 + row.2.1)) :
    (s.step (.report batch rows)).Sound := by
  dsimp only [step]
  split
  · next hsome =>
    obtain ⟨l, hl⟩ := Option.isSome_iff_exists.mp hsome
    refine ⟨h.durable, fun w hw ↦ ?_, h.running, h.mirrors⟩
    rcases List.mem_append.mp hw with hw | hw
    · exact h.writes w hw
    · obtain rfl := List.mem_singleton.mp hw
      exact ⟨(h.running l hl).2.2, fun _ ↦ hrows⟩
  · exact h

private theorem sound_flush {s : SegmentStore} (h : s.Sound) (stored : Bool)
    (hflush : s.Admissible (.flush stored)) : (s.flush stored).Sound := by
  unfold flush
  split
  · exact h
  next hopen =>
  split
  · exact h
  next l hl =>
  split
  · obtain ⟨hwf, -⟩ := h.running l hl
    have hmirrors := h.mirrors l hl (by simpa using hopen)
    refine ⟨h.durable.flush hwf hmirrors (hflush l hl), h.writes, h.running,
      fun l' hl' hopen' k ↦ ?_⟩
    rw [span_flush]
    exact h.mirrors l' hl' hopen' k
  · exact h

/-- Every step keeps the invariant. -/
theorem sound_step (s : SegmentStore) (op : StoreOp) (h : s.Sound) (hop : s.Admissible op) :
    (s.step op).Sound := by
  cases op with
  | start others input answers => exact sound_start h others hop answers
  | change op stored => exact sound_change h stored hop
  | sync range =>
    have hsub := List.subset_cons_self range s.onDisk
    refine ⟨h.durable.mono hsub, fun w hw ↦ ?_, h.running, h.mirrors⟩
    obtain ⟨hold, hrows⟩ := h.writes w hw
    refine ⟨hold, fun hepoch row hrow ↦ ?_⟩
    obtain ⟨hnonneg, hcovers⟩ := hrows hepoch row hrow
    exact ⟨hnonneg, hcovers.mono hsub⟩
  | report batch rows => exact sound_report h batch hop
  | deliver n => exact sound_deliver h n
  | lose n =>
    exact ⟨h.durable, fun w hw ↦ h.writes w (List.mem_of_mem_eraseIdx hw), h.running, h.mirrors⟩
  | flush stored => exact sound_flush h stored hop
  | stop => exact ⟨h.durable, h.writes, fun l hl ↦ (by cases hl), fun l hl ↦ (by cases hl)⟩
  | crash =>
    exact ⟨h.durable, fun w hw ↦ absurd hw List.not_mem_nil, fun l hl ↦ (by cases hl),
      fun l hl ↦ (by cases hl)⟩

/-! ## Runs -/

/-- At every moment of every run the rows are empty or cover the file once, they count only bytes
that are on disk, and they have the ranges of the layout while its changes are stored. When the
process ends at that moment, the next start that finds the same size and the whole file keeps
every row and goes on from it. -/
theorem segments_survive_crash (ops : List StoreOp)
    (hops : EveryStep step Admissible initial ops) :
    let s := run step initial ops
    (s.table.entries = [] ∨ ∃ total, 0 < total ∧ Tiles s.table.spans 0 total) ∧
      (∀ k r, s.table.get? k = some r → 0 ≤ r.downloadedBytes ∧
        Covers s.onDisk r.startByte (r.startByte + r.downloadedBytes)) ∧
      (∀ l, s.layout = some l → s.closing = false → Mirrors s.table l.segments) ∧
      ∀ others input fileLen, 0 < input.totalBytes → Tiles s.table.spans 0 input.totalBytes →
        1 ≤ input.initialSegmentCount → input.fileLen = some fileLen →
        input.totalBytes ≤ fileLen →
        (s.table.values.map StoredRange.downloadedBytes).sum ≤ fileLen →
        let resumed := (s.step .crash).step (.start others input .succeed)
        resumed.table = s.table ∧
          resumed.layout = some (Layout.restored s.table.loadSegments input.totalBytes) := by
  intro s
  have h : s.Sound := run_invariant sound_step sound_initial hops
  refine ⟨h.durable.tiled, fun k r hr ↦ ⟨(h.durable.rows k r hr).2, h.durable.covered k r hr⟩,
    h.mirrors, ?_⟩
  intro others input fileLen hpos htiles hcount hfile hlong hsum resumed
  have hstart := startCoordinator_resumes hpos htiles rfl hcount hfile hlong hsum
  have htable : resumed.table = (startCoordinator s.table input .succeed).table := rfl
  have hlayout : resumed.layout = (startCoordinator s.table input .succeed).layout := rfl
  rw [htable, hlayout, hstart]
  exact ⟨rfl, rfl⟩

/-- A file of 10 bytes in two segments, of which three bytes are written and counted. -/
def threeBytes : List StoreOp :=
  [.start 0 ⟨10, 2, false, false, true, some 0⟩ .succeed, .change .findNextPendingOnly true,
    .sync ⟨0, 2⟩, .report false [(0, 3, 0)], .deliver 0]

/-- The next start goes on behind the three bytes. -/
theorem segments_survive_crash_threeBytes :
    (run step initial threeBytes).table.get? 0 = some ⟨0, 4, 3⟩ ∧
      ((((run step initial threeBytes).step .crash).step
        (.start 0 ⟨10, 2, false, false, true, some 10⟩ .succeed)).layout =
          some (Layout.restored (run step initial threeBytes).table.loadSegments 10)) := by
  have hspans : (run step initial threeBytes).table.spans = [⟨0, 4⟩, ⟨5, 9⟩] := by decide
  have hchain : Chain 0 [⟨0, 4⟩, ⟨5, 9⟩] 10 := ⟨rfl, by decide, rfl, by decide, rfl⟩
  have hops : EveryStep step Admissible initial threeBytes := by
    refine ⟨by show (2 : Int) ≤ i32Max; decide, fun l hl ↦ ?_, trivial, fun row hrow ↦ ?_,
      trivial, trivial⟩
    · obtain rfl := Option.some.inj hl
      exact ⟨by decide, trivial⟩
    · obtain rfl := List.mem_singleton.mp hrow
      refine ⟨by decide, fun x hlo hhi ↦ ⟨⟨0, 2⟩, List.mem_cons_self, hlo, ?_⟩⟩
      have hless : x < 0 + 3 := hhi
      show x ≤ 2
      omega
  refine ⟨by decide, ?_⟩
  have hresumes := (segments_survive_crash threeBytes hops).2.2.2 0
    ⟨10, 2, false, false, true, some 10⟩ 10 (by decide) (by rw [hspans]; exact hchain.tiles)
    (by decide) rfl (by decide) (by decide)
  exact hresumes.2

end SegmentStore

end Engine
