import FluxDown.Engine.LayoutInvariant
import FluxDown.Engine.Transfer

/-!
# No hole in a finished transfer

Library `Engine`. Every progress value in the system, whether held by the layout, published,
carried by an event or by a worker, counts bytes that some worker has written from the start
of its segment. A successful verification then leaves no hole, provided no segment is closed
with more progress than its size: the sum of the progress values equals the total only when
each of them equals its segment's size.
-/

namespace Engine

open Base

/-- The first `n` bytes from `start` are written. -/
def Backed (written : List Span) (start n : Int) : Prop :=
  ∀ x, start ≤ x → x < start + n → ∃ s ∈ written, s.Contains x

private theorem Backed.mono {written written' : List Span} {start n n' : Int}
    (h : Backed written start n) (hsub : ∀ s ∈ written, s ∈ written') (hn : n' ≤ n) :
    Backed written' start n' := by
  intro x hlo hhi
  obtain ⟨s, hs, hx⟩ := h x hlo (by omega)
  exact ⟨s, hsub s hs, hx⟩

private theorem Backed.of_nonpos (written : List Span) (start : Int) {n : Int} (h : n ≤ 0) :
    Backed written start n := by
  intro x hlo hhi
  omega

/-- Writing at the current position extends the written prefix. -/
theorem Backed.extend {written : List Span} {start done n : Int}
    (h : Backed written start done) :
    Backed (⟨start + done, start + done + n - 1⟩ :: written) start (done + n) := by
  intro x hlo hhi
  by_cases hx : x < start + done
  · obtain ⟨s, hs, hc⟩ := h x hlo hx
    exact ⟨s, List.mem_cons_of_mem _ hs, hc⟩
  · exact ⟨_, List.mem_cons_self, by constructor <;> dsimp only <;> omega⟩

/-- `n` bytes of segment `idx`, counted from `start`, are written, and every segment stored
under `idx` starts there. -/
structure Owned (l : Layout) (written : List Span) (idx start n : Int) : Prop where
  /-- The index has been given out. -/
  given : idx < l.nextIndex
  /-- Progress is not negative. -/
  nonneg : 0 ≤ n
  /-- The bytes are written. -/
  backed : Backed written start n
  /-- The start belongs to the index. -/
  start_eq : ∀ seg, l.segments.get? idx = some seg → seg.startByte = start

private theorem Owned.mono {l l' : Layout} {written written' : List Span} {idx start n n' : Int}
    (h : Owned l written idx start n) (hkept : StartsKept l l')
    (hsub : ∀ s ∈ written, s ∈ written') (hnonneg : 0 ≤ n') (hn : n' ≤ n) :
    Owned l' written' idx start n' where
  given := lt_of_lt_of_le h.given hkept.next
  nonneg := hnonneg
  backed := h.backed.mono hsub hn
  start_eq seg' hseg' := by
    obtain ⟨seg, hseg, heq⟩ := hkept.start idx seg' h.given hseg'
    rw [← heq, h.start_eq seg hseg]

/-- Some start makes `n` bytes of segment `idx` owned. -/
def Known (l : Layout) (written : List Span) (idx n : Int) : Prop :=
  ∃ start, Owned l written idx start n

private theorem Known.mono {l l' : Layout} {written written' : List Span} {idx n n' : Int}
    (h : Known l written idx n) (hkept : StartsKept l l')
    (hsub : ∀ s ∈ written, s ∈ written') (hnonneg : 0 ≤ n') (hn : n' ≤ n) :
    Known l' written' idx n' := by
  obtain ⟨start, howned⟩ := h
  exact ⟨start, howned.mono hkept hsub hnonneg hn⟩

private theorem Known.backed {l : Layout} {written : List Span} {idx n : Int}
    (h : Known l written idx n) {seg : LiveSegment} (hseg : l.segments.get? idx = some seg) :
    Backed written seg.startByte n := by
  obtain ⟨start, howned⟩ := h
  rw [howned.start_eq seg hseg]
  exact howned.backed

/-! ## Progress of the layout -/

/-- The progress of a segment is written, and a completed segment has no more than its size. -/
def SegOk (written : List Span) (seg : LiveSegment) : Prop :=
  Backed written seg.startByte seg.downloadedBytes ∧
    (seg.state = .completed → seg.downloadedBytes ≤ seg.size)

/-- Every stored segment is `SegOk`. -/
def AllOk (written : List Span) (segments : SegmentMap) : Prop :=
  ∀ k seg, segments.get? k = some seg → SegOk written seg

private theorem allOk_modify {written : List Span} {segments : SegmentMap}
    (h : AllOk written segments) (idx : Int) {f : LiveSegment → LiveSegment}
    (hf : ∀ s, segments.get? idx = some s → SegOk written (f s)) :
    AllOk written (segments.modify idx f) := by
  intro k seg hk
  rw [SortedMap.get?_modify] at hk
  split at hk
  · next hidx =>
    obtain ⟨s, hs, rfl⟩ := Option.map_eq_some_iff.mp hk
    exact hf s (hidx ▸ hs)
  · exact h k seg hk

private theorem allOk_insert {written : List Span} {segments : SegmentMap}
    (h : AllOk written segments) (idx : Int) {seg : LiveSegment} (hseg : SegOk written seg) :
    AllOk written (segments.insert idx seg) := by
  intro k s hk
  rw [SortedMap.get?_insert] at hk
  split at hk
  · exact Option.some.inj hk ▸ hseg
  · exact h k s hk

private theorem allOk_setState {written : List Span} {segments : SegmentMap}
    (h : AllOk written segments) (idx : Int) {state : SegState} (hstate : state ≠ .completed) :
    AllOk written (setState segments idx state) := by
  apply allOk_modify h
  intro s hs
  exact ⟨(h idx s hs).1, fun hcompleted ↦ absurd hcompleted hstate⟩

private theorem segOk_pending (written : List Span) (index startByte endByte : Int) :
    SegOk written (pendingSegment index startByte endByte) :=
  ⟨Backed.of_nonpos _ _ (le_refl _), fun h ↦ absurd (show SegState.pending = .completed from h)
    (by decide)⟩

private theorem allOk_split {written : List Span} {segments : SegmentMap}
    (h : AllOk written segments) {idx point next : Int} {seg : LiveSegment} {state : SegState}
    (hget : segments.get? idx = some seg) (hactive : seg.state = .active)
    (hstate : state ≠ .completed) :
    AllOk written (splitSegment segments next idx point seg.endByte state) := by
  apply allOk_insert
  · apply allOk_modify h
    intro s hs
    rw [hget] at hs
    obtain rfl := Option.some.inj hs
    refine ⟨(h idx seg hget).1, fun hcompleted ↦ ?_⟩
    change seg.state = .completed at hcompleted
    rw [hactive] at hcompleted
    exact absurd hcompleted (by decide)
  · exact ⟨Backed.of_nonpos _ _ (le_refl _), fun hcompleted ↦ absurd hcompleted hstate⟩

/-- What an operation brings into the layout is known, and a segment handed back has no more
progress than its size. -/
def LayoutOp.Sound (l : Layout) (written : List Span) : LayoutOp → Prop
  | .done segIndex downloadedBytes => Known l written segIndex downloadedBytes
  | .syncDownloaded shared => ∀ info ∈ shared, Known l written info.1 info.2
  | .preempted segIndex =>
    ∀ seg, l.segments.get? segIndex = some seg → seg.downloadedBytes ≤ seg.size
  | _ => True

private theorem allOk_sync {written : List Span} {segments : SegmentMap}
    (h : AllOk written segments) {shared : List (Int × Int)}
    (hshared : ∀ info ∈ shared, ∀ seg, segments.get? info.1 = some seg →
      Backed written seg.startByte info.2) :
    AllOk written (syncDownloadedFromShared segments shared) := by
  unfold syncDownloadedFromShared
  induction shared generalizing segments with
  | nil => exact h
  | cons info shared ih =>
    rw [List.foldl_cons]
    have hinfo := hshared info List.mem_cons_self
    apply ih
    · apply allOk_modify h
      intro s hs
      split
      · next hactive =>
        refine ⟨hinfo s hs, fun hcompleted ↦ ?_⟩
        change s.state = .completed at hcompleted
        rw [hactive] at hcompleted
        exact absurd hcompleted (by decide)
      · exact h info.1 s hs
    · intro i hi seg hseg
      have hi := hshared i (List.mem_cons_of_mem _ hi)
      rw [SortedMap.get?_modify] at hseg
      split at hseg
      · next hidx =>
        obtain ⟨s, hs, rfl⟩ := Option.map_eq_some_iff.mp hseg
        have hstart := hi s hs
        split <;> exact hstart
      · exact hi seg hseg

private theorem allOk_done {l : Layout} {written : List Span} (h : AllOk written l.segments)
    {segIndex downloadedBytes : Int} (hknown : Known l written segIndex downloadedBytes) :
    AllOk written (l.step (.done segIndex downloadedBytes)).segments := by
  dsimp only [Layout.step]
  rcases handleDone_cases l.segments l.nextIndex segIndex downloadedBytes with
    heq | ⟨seg, hget, hpos, hlt, heq⟩ | heq <;> rw [heq]
  · exact h
  · apply allOk_insert
    · apply allOk_modify h
      intro s hs
      have hbacked := hknown.backed hs
      refine ⟨hbacked, fun _ ↦ ?_⟩
      simp only [completeShort, LiveSegment.size]
      omega
    · exact segOk_pending _ _ _ _
  · apply allOk_modify h
    intro s hs
    have hbacked := hknown.backed hs
    exact ⟨hbacked.mono (fun _ hs ↦ hs) (min_le_left _ _), fun _ ↦ min_le_right _ _⟩

private theorem allOk_absorb {l : Layout} {written : List Span} (h : AllOk written l.segments)
    (openEndedStreaming : Option Int) (persisted : Bool) :
    AllOk written (l.step (.absorb openEndedStreaming persisted)).segments := by
  dsimp only [Layout.step]
  unfold absorbPendingIntoOpenStream
  split
  · exact h
  · next openIdx =>
    split
    · exact h
    · next openSeg hopen =>
      obtain ⟨hget, hactive⟩ := Option.filter_eq_some_iff.mp hopen
      have hactive : openSeg.state = .active := by simpa using hactive
      dsimp only
      split
      · exact h
      · apply allOk_modify
        · intro k seg hk
          rw [SortedMap.get?_eraseAll] at hk
          split at hk
          · exact absurd hk (by simp)
          · exact h k seg hk
        · intro s hs
          rw [SortedMap.get?_eraseAll] at hs
          split at hs
          · exact absurd hs (by simp)
          rw [hget] at hs
          obtain rfl := Option.some.inj hs
          refine ⟨(h openIdx openSeg hget).1, fun hcompleted ↦ ?_⟩
          change openSeg.state = .completed at hcompleted
          rw [hactive] at hcompleted
          exact absurd hcompleted (by decide)

/-- Sound operations keep every segment `SegOk`. -/
theorem allOk_step {l : Layout} {written : List Span} (hwf : l.WF)
    (h : AllOk written l.segments) {op : LayoutOp} (hop : op.Sound l written) :
    AllOk written (l.step op).segments := by
  cases op with
  | findNextWork minSplit cost =>
    dsimp only [Layout.step, Layout.assigned]
    rcases findNextWork_cases hwf.keyed l.nextIndex minSplit cost with
      heq | ⟨seg, -, -, heq⟩ | ⟨idx, best, point, hget, hactive, -, -, heq⟩ <;> rw [heq]
    · exact h
    · exact allOk_setState h _ (by decide)
    · exact allOk_split h hget hactive (by decide)
  | findNextPendingOnly =>
    dsimp only [Layout.step]
    unfold findNextPendingOnly
    split
    · exact h
    · exact allOk_setState h _ (by decide)
  | trySplitLargest minSplit cost =>
    dsimp only [Layout.step, Layout.assigned, trySplitLargest]
    rcases splitBest_cases hwf.keyed l.nextIndex minSplit cost .active with
      heq | ⟨idx, best, point, hget, hactive, -, -, heq⟩ <;> rw [heq]
    · exact h
    · exact allOk_split h hget hactive (by decide)
  | tryProactiveSplit minSplit cost =>
    dsimp only [Layout.step, Layout.assigned, tryProactiveSplit]
    split
    · exact h
    · rcases splitBest_cases hwf.keyed l.nextIndex minSplit cost .pending with
        heq | ⟨idx, best, point, hget, hactive, -, -, heq⟩ <;> rw [heq]
      · exact h
      · exact allOk_split h hget hactive (by decide)
  | done segIndex downloadedBytes => exact allOk_done h hop
  | trueSizeLarger segIndex reportedTotal preallocated =>
    dsimp only [Layout.step]
    unfold handleTrueSizeLarger
    apply allOk_setState _ _ (by decide)
    split
    · exact allOk_insert h _ (segOk_pending _ _ _ _)
    · exact h
  | absorb openEndedStreaming persisted => exact allOk_absorb h openEndedStreaming persisted
  | failed segIndex => exact allOk_setState h _ (by decide)
  | preempted segIndex =>
    apply allOk_modify h
    intro s hs
    exact ⟨(h segIndex s hs).1, fun _ ↦ hop s hs⟩
  | syncDownloaded shared =>
    exact allOk_sync h fun info hinfo seg hseg ↦ (hop info hinfo).backed hseg

/-! ## The invariant of the system -/

/-- Every progress value in the system counts written bytes. -/
structure Transfer.Inv (t : Transfer) : Prop where
  /-- The layout is well-formed. -/
  wf : t.layout.WF
  /-- The layout's progress is written. -/
  segments : AllOk t.written t.layout.segments
  /-- Published progress is written. -/
  published : ∀ k info, t.segStates.get? k = some info →
    Known t.layout t.written k info.downloadedBytes
  /-- A worker's progress is written. -/
  workers : ∀ w worker, t.workers.get? w = some worker →
    Owned t.layout t.written worker.segIndex worker.segStart worker.segDownloaded
  /-- Reported progress is written. -/
  events : ∀ idx n, WorkerEvent.done idx n ∈ t.events → Known t.layout t.written idx n
  /-- Work waiting to be handed out starts behind written bytes. -/
  work : ∀ work, t.nextWork = some work →
    Owned t.layout t.written work.assignment.segIndex work.assignment.segStart
      (work.assignment.actualStart - work.assignment.segStart)

/-- The published progress of segment `idx` does not exceed its current size. -/
def Transfer.WithinSize (t : Transfer) (idx : Int) : Prop :=
  ∀ seg, (syncDownloadedFromShared t.layout.segments t.published).get? idx = some seg →
    seg.downloadedBytes ≤ seg.size

instance (t : Transfer) (idx : Int) : Decidable (t.WithinSize idx) :=
  decidable_of_iff
    (∀ seg ∈ ((syncDownloadedFromShared t.layout.segments t.published).get? idx).toList,
      seg.downloadedBytes ≤ seg.size)
    (by simp [Transfer.WithinSize])

/-- The step does not close a segment with more progress than its size: a preempted or isolated
segment has published no more than its current size, nor has any segment still unfinished at
the verification. A segment index is left to give out. -/
def TransferAction.Clean (t : Transfer) (a : TransferAction) : Prop :=
  t.layout.nextIndex < i32Max ∧ match a with
    | .coordinator (.handleEvent verdict _) => ∀ idx,
        t.events.head? = some (.preempted idx) ∨
          t.events.head? = some (.failed idx .other) ∧ verdict = .isolate → t.WithinSize idx
    | .coordinator .verify => ∀ idx,
        (∀ seg, t.layout.segments.get? idx = some seg → seg.state ≠ .completed) → t.WithinSize idx
    | _ => True

private theorem known_published {t : Transfer} (h : t.Inv) :
    ∀ info ∈ t.published, Known t.layout t.written info.1 info.2 := by
  intro info hinfo
  obtain ⟨e, he, rfl⟩ := List.mem_map.mp hinfo
  exact h.published e.1 e.2 (t.segStates.get?_eq_some_iff.mpr he)

/-- The invariant survives a step of the layout that keeps every start. -/
theorem inv_change {t : Transfer} (h : t.Inv) {op : LayoutOp}
    (hadmissible : op.Admissible t.layout) (hsound : op.Sound t.layout t.written) :
    (t.change op).Inv := by
  have hkept := Layout.startsKept_step t.layout op h.wf hadmissible
  exact {
    wf := Layout.wf_step t.layout op h.wf hadmissible
    segments := allOk_step h.wf h.segments hsound
    published := fun k info hk ↦ by
      have hknown := h.published k info hk
      obtain ⟨start, howned⟩ := hknown
      exact ⟨start, howned.mono hkept (fun _ hs ↦ hs) howned.nonneg (le_refl _)⟩
    workers := fun w worker hw ↦
      (h.workers w worker hw).mono hkept (fun _ hs ↦ hs) (h.workers w worker hw).nonneg
        (le_refl _)
    events := fun idx n hn ↦ by
      obtain ⟨start, howned⟩ := h.events idx n hn
      exact ⟨start, howned.mono hkept (fun _ hs ↦ hs) howned.nonneg (le_refl _)⟩
    work := fun work hwork ↦
      (h.work work hwork).mono hkept (fun _ hs ↦ hs) (h.work work hwork).nonneg (le_refl _) }

/-- A stored segment owns its own progress. -/
theorem owned_segment {l : Layout} {written : List Span} (hwf : l.WF)
    (hok : AllOk written l.segments) {k : Int} {seg : LiveSegment}
    (hget : l.segments.get? k = some seg) :
    Owned l written k seg.startByte seg.downloadedBytes where
  given := hwf.below k seg hget
  nonneg := hwf.progress k seg hget
  backed := (hok k seg hget).1
  start_eq seg' hseg' := by
    rw [hget] at hseg'
    rw [Option.some.inj hseg']

/-- Work found by resuming a segment. -/
theorem owned_resumeWork {t : Transfer} (h : t.Inv) {seg : LiveSegment}
    (hget : t.layout.segments.get? seg.index = some seg) :
    Owned t.layout t.written (resumeWork seg).assignment.segIndex
      (resumeWork seg).assignment.segStart
      ((resumeWork seg).assignment.actualStart - (resumeWork seg).assignment.segStart) := by
  have howned := owned_segment h.wf h.segments hget
  have hprogress : (resumeWork seg).assignment.actualStart -
      (resumeWork seg).assignment.segStart = seg.downloadedBytes := by
    simp only [resumeWork]
    omega
  rw [hprogress]
  exact howned

/-- Work found by a split starts at its own segment, which has no progress. -/
theorem owned_splitWork {l l' : Layout} {written : List Span} (hwf : l'.WF)
    {idx point oldEnd : Int} {state : SegState}
    (hsegments : l'.segments = splitSegment l.segments l.nextIndex idx point oldEnd state) :
    Owned l' written (splitWork l.nextIndex idx point oldEnd).assignment.segIndex
      (splitWork l.nextIndex idx point oldEnd).assignment.segStart
      ((splitWork l.nextIndex idx point oldEnd).assignment.actualStart -
        (splitWork l.nextIndex idx point oldEnd).assignment.segStart) := by
  have hget : l'.segments.get? l.nextIndex =
      some (splitChild l.nextIndex point oldEnd state) := by
    rw [hsegments, splitSegment, SortedMap.get?_insert, if_pos rfl]
  exact {
    given := hwf.below _ _ hget
    nonneg := by simp [splitWork]
    backed := Backed.of_nonpos _ _ (by simp [splitWork])
    start_eq := fun seg hseg ↦ by
      change l'.segments.get? l.nextIndex = some seg at hseg
      rw [hget] at hseg
      rw [← Option.some.inj hseg]
      rfl }

/-- An assignment operation keeps the invariant when the work it finds is owned. -/
theorem inv_assign {t : Transfer} (h : t.Inv) {op : LayoutOp} {work : Option NextWork}
    (hadmissible : op.Admissible t.layout) (hsound : op.Sound t.layout t.written)
    (hwork : ∀ nw, work = some nw →
      Owned (t.layout.step op) t.written nw.assignment.segIndex nw.assignment.segStart
        (nw.assignment.actualStart - nw.assignment.segStart)) :
    (t.assign op work).Inv := by
  have hchange := inv_change h hadmissible hsound
  exact { hchange with work := hwork }

/-- Bytes of work found after a split attempt are owned. -/
theorem owned_splitBest {t : Transfer} (h : t.Inv) {op : LayoutOp}
    (hadmissible : op.Admissible t.layout) {result : SegmentMap × Int × Option NextWork}
    (state : SegState)
    (hop : t.layout.step op = t.layout.assigned result)
    (hcases : result = (t.layout.segments, t.layout.nextIndex, none) ∨
      ∃ idx best point, t.layout.segments.get? idx = some best ∧ best.state = .active ∧
        best.startByte + best.downloadedBytes < point ∧ point ≤ best.endByte ∧
        result = (splitSegment t.layout.segments t.layout.nextIndex idx point best.endByte state,
          wrapI32 (t.layout.nextIndex + 1),
          some (splitWork t.layout.nextIndex idx point best.endByte))) :
    ∀ nw, result.2.2 = some nw →
      Owned (t.layout.step op) t.written nw.assignment.segIndex nw.assignment.segStart
        (nw.assignment.actualStart - nw.assignment.segStart) := by
  have hwf := Layout.wf_step t.layout op h.wf hadmissible
  intro nw hnw
  rcases hcases with hnone | ⟨idx, best, point, -, -, -, -, hsplit⟩
  · rw [hnone] at hnw
    exact absurd hnw (by simp)
  · rw [hsplit] at hnw hop
    obtain rfl := Option.some.inj hnw
    exact owned_splitWork hwf (by rw [hop]; rfl)

/-! ## Steps -/

private theorem inv_sync {t : Transfer} (h : t.Inv) (hnext : t.layout.nextIndex < i32Max) :
    (t.change (.syncDownloaded t.published)).Inv := by
  apply inv_change h
  · refine ⟨hnext, fun info hinfo ↦ ?_⟩
    obtain ⟨start, howned⟩ := known_published h info hinfo
    exact howned.nonneg
  · exact known_published h

/-- Handing a segment back after a synchronisation keeps the invariant when the segment is
within its size. -/
theorem inv_preempted {t : Transfer} (h : t.Inv) (hnext : t.layout.nextIndex < i32Max)
    {idx : Int} (hsize : t.WithinSize idx) :
    ((t.change (.syncDownloaded t.published)).change (.preempted idx)).Inv :=
  inv_change (inv_sync h hnext) ⟨hnext, trivial⟩ hsize

private theorem inv_handle {t : Transfer} (h : t.Inv) (hnext : t.layout.nextIndex < i32Max)
    {verdict : FailureVerdict} {preallocated : Bool} {event : WorkerEvent}
    (hdone : ∀ idx n, event = .done idx n → Known t.layout t.written idx n)
    (hsize : ∀ idx, event = .preempted idx ∨ event = .failed idx .other ∧ verdict = .isolate →
      t.WithinSize idx) : (t.handle verdict preallocated event).Inv := by
  cases event with
  | done idx n =>
    have hknown := hdone idx n rfl
    obtain ⟨start, howned⟩ := hknown
    exact inv_change h ⟨hnext, howned.nonneg⟩ ⟨start, howned⟩
  | preempted idx => exact inv_preempted h hnext (hsize idx (Or.inl rfl))
  | failed idx error =>
    cases error with
    | trueSizeLarger reported => exact inv_change h ⟨hnext, trivial⟩ trivial
    | cdnNodeFailed => exact inv_change h ⟨hnext, trivial⟩ trivial
    | other =>
      cases verdict with
      | isolate => exact inv_preempted h hnext (hsize idx (Or.inr ⟨rfl, rfl⟩))
      | requeue => exact inv_change h ⟨hnext, trivial⟩ trivial
      | fatal => exact { h with }

/-- The coordinator keeps the invariant. -/
theorem inv_coordinate {t : Transfer} (h : t.Inv) {a : CoordinatorAction}
    (hclean : TransferAction.Clean t (.coordinator a)) : (t.coordinate a).Inv := by
  obtain ⟨hnext, hclean⟩ := hclean
  cases a with
  | sync => exact inv_sync h hnext
  | findNextWork minSplit cost =>
    have hadmissible : (LayoutOp.findNextWork minSplit cost).Admissible t.layout :=
      ⟨hnext, trivial⟩
    apply inv_assign h hadmissible trivial
    rcases findNextWork_cases h.wf.keyed t.layout.nextIndex minSplit cost with
      heq | ⟨seg, hget, -, heq⟩ | hsplit
    · exact owned_splitBest h hadmissible .active rfl (Or.inl heq)
    · intro nw hnw
      rw [heq] at hnw
      obtain rfl := Option.some.inj hnw
      exact (owned_resumeWork h hget).mono
        (Layout.startsKept_step t.layout _ h.wf hadmissible) (fun _ hs ↦ hs)
        (owned_resumeWork h hget).nonneg (le_refl _)
    · exact owned_splitBest h hadmissible .active rfl (Or.inr hsplit)
  | findNextPendingOnly =>
    have hadmissible : LayoutOp.findNextPendingOnly.Admissible t.layout := ⟨hnext, trivial⟩
    apply inv_assign h hadmissible trivial
    intro nw hnw
    unfold findNextPendingOnly at hnw
    split at hnw
    · exact absurd hnw (by simp)
    · next seg hfirst =>
      obtain rfl := Option.some.inj hnw
      have howned := owned_resumeWork h (firstPending_spec h.wf.keyed hfirst).1
      exact howned.mono (Layout.startsKept_step t.layout _ h.wf hadmissible) (fun _ hs ↦ hs)
        howned.nonneg (le_refl _)
  | trySplitLargest minSplit cost =>
    have hadmissible : (LayoutOp.trySplitLargest minSplit cost).Admissible t.layout :=
      ⟨hnext, trivial⟩
    apply inv_assign h hadmissible trivial
    exact owned_splitBest h hadmissible .active rfl (splitBest_cases h.wf.keyed _ _ _ .active)
  | tryProactiveSplit minSplit cost => exact inv_change h ⟨hnext, trivial⟩ trivial
  | rebuildSegStates =>
    refine { h with published := fun k info hk ↦ ?_ }
    simp only [Transfer.coordinate, rebuildSegStates, buildSegStateVec,
      SortedMap.get?_mapValues, Option.map_map, Option.map_eq_some_iff] at hk
    obtain ⟨seg, hseg, rfl⟩ := hk
    dsimp only [Function.comp]
    cases hold : t.segStates.get? k with
    | some existing => exact h.published k existing hold
    | none => exact ⟨_, owned_segment h.wf h.segments hseg⟩
  | dispatch w windowCap =>
    simp only [Transfer.coordinate]
    split
    · next work hwork hidle =>
      refine { h with work := fun _ hnone ↦ absurd hnone (by simp), workers := ?_ }
      intro w' worker hworker
      change (t.workers.insert w (Worker.start work.assignment windowCap)).get? w' =
        some worker at hworker
      rw [SortedMap.get?_insert] at hworker
      split at hworker
      · obtain rfl := Option.some.inj hworker
        exact h.work work hwork
      · exact h.workers w' worker hworker
    · exact h
  | reclaim =>
    simp only [Transfer.coordinate]
    split
    · next work hwork =>
      have hchange := inv_change h
        (show (LayoutOp.failed work.assignment.segIndex).Admissible t.layout from ⟨hnext, trivial⟩)
        trivial
      exact { hchange with work := fun _ hnone ↦ absurd hnone (by simp) }
    · exact h
  | absorb openEndedStreaming persisted => exact inv_change h ⟨hnext, trivial⟩ trivial
  | handleEvent verdict preallocated =>
    simp only [Transfer.coordinate]
    split
    · exact h
    · next event rest hevents =>
      have hrest : Transfer.Inv { t with events := rest } :=
        { h with events := fun idx n hn ↦
            h.events idx n (by rw [hevents]; exact List.mem_cons_of_mem _ hn) }
      apply inv_handle hrest hnext
      · intro idx n hevent
        exact h.events idx n (by rw [hevents, hevent]; exact List.mem_cons_self)
      · intro idx hidx
        apply hclean idx
        rw [hevents, List.head?_cons]
        exact hidx.imp (congrArg some) fun hfailed ↦ ⟨congrArg some hfailed.1, hfailed.2⟩
  | exitLoop =>
    simp only [Transfer.coordinate]
    split
    · exact { h with }
    · exact h
  | verify => exact h

private theorem inv_report {t : Transfer} (h : t.Inv) (w : Nat) {event : WorkerEvent}
    (hdone : ∀ idx n, event = .done idx n → Known t.layout t.written idx n) :
    (t.report w event).Inv := by
  refine { h with workers := ?_, events := ?_ }
  · intro w' worker hworker
    change (t.workers.erase w).get? w' = some worker at hworker
    rw [SortedMap.get?_erase] at hworker
    split at hworker
    · exact absurd hworker (by simp)
    · exact h.workers w' worker hworker
  · intro idx n hn
    rcases List.mem_append.mp hn with hn | hn
    · exact h.events idx n hn
    · exact hdone idx n (List.mem_singleton.mp hn).symm

private theorem inv_setWorker {t : Transfer} (h : t.Inv) (w : Nat) {worker : Worker}
    (hworker : Owned t.layout t.written worker.segIndex worker.segStart worker.segDownloaded) :
    Transfer.Inv { t with workers := t.workers.insert w worker } := by
  refine { h with workers := ?_ }
  intro w' worker' hget
  change (t.workers.insert w worker).get? w' = some worker' at hget
  rw [SortedMap.get?_insert] at hget
  split at hget
  · exact Option.some.inj hget ▸ hworker
  · exact h.workers w' worker' hget

/-- More written bytes do no harm. -/
theorem inv_written {t : Transfer} (h : t.Inv) (s : Span) :
    Transfer.Inv { t with written := s :: t.written } := by
  have hsub : ∀ r ∈ t.written, r ∈ s :: t.written := fun r hr ↦ List.mem_cons_of_mem _ hr
  have hkept := StartsKept.refl t.layout
  exact {
    wf := h.wf
    segments := fun k seg hk ↦ ⟨(h.segments k seg hk).1.mono hsub (le_refl _),
      (h.segments k seg hk).2⟩
    published := fun k info hk ↦ by
      obtain ⟨start, howned⟩ := h.published k info hk
      exact ⟨start, howned.mono hkept hsub howned.nonneg (le_refl _)⟩
    workers := fun w worker hw ↦
      (h.workers w worker hw).mono hkept hsub (h.workers w worker hw).nonneg (le_refl _)
    events := fun idx n hn ↦ by
      obtain ⟨start, howned⟩ := h.events idx n hn
      exact ⟨start, howned.mono hkept hsub howned.nonneg (le_refl _)⟩
    work := fun work hwork ↦
      (h.work work hwork).mono hkept hsub (h.work work hwork).nonneg (le_refl _) }

/-- A worker keeps the invariant. -/
theorem inv_work {t : Transfer} (h : t.Inv) {w : Nat} {worker : Worker}
    (hget : t.workers.get? w = some worker) (a : WorkerAction) : (t.work w worker a).Inv := by
  have howned := h.workers w worker hget
  have hkept := StartsKept.refl t.layout
  cases a with
  | readEnd =>
    simp only [Transfer.work]
    split
    · exact inv_setWorker h w howned
    · exact h
  | write n =>
    simp only [Transfer.work]
    split
    · next hn =>
      have hwritten := inv_written h ⟨worker.segStart + worker.segDownloaded,
        worker.segStart + worker.segDownloaded + n - 1⟩
      apply inv_setWorker hwritten w
      exact {
        given := howned.given
        nonneg := by have := howned.nonneg; dsimp only; omega
        backed := howned.backed.extend
        start_eq := howned.start_eq }
    · exact h
  | publishProgress n =>
    simp only [Transfer.work]
    split
    · next hn =>
      refine { h with published := fun k info hk ↦ ?_ }
      change (updateSegState t.segStates worker.segIndex n).get? k = some info at hk
      rw [updateSegState, SortedMap.get?_modify] at hk
      split at hk
      · next hidx =>
        obtain ⟨old, -, rfl⟩ := Option.map_eq_some_iff.mp hk
        exact ⟨worker.segStart, hidx ▸ howned.mono hkept (fun _ hs ↦ hs) hn.1 hn.2⟩
      · exact h.published k info hk
    · exact h
  | resume n segEnd windowCap =>
    simp only [Transfer.work]
    split
    · next hn => exact inv_setWorker h w (howned.mono hkept (fun _ hs ↦ hs) hn.1 hn.2)
    · exact h
  | finish n =>
    simp only [Transfer.work]
    split
    · next hn =>
      apply inv_report h w
      intro idx m hdone
      obtain ⟨rfl, rfl⟩ := WorkerEvent.done.inj hdone
      exact ⟨worker.segStart, howned.mono hkept (fun _ hs ↦ hs) hn.1 hn.2⟩
    · exact h
  | fail error => exact inv_report h w fun _ _ hdone ↦ absurd hdone (by simp)
  | preempt => exact inv_report h w fun _ _ hdone ↦ absurd hdone (by simp)

/-! ## Verification -/

/-- Everything a successful run promises: all bytes of the file are written, and every flushed
row belongs to a segment, holds that segment's size and reloads as completed. -/
structure Transfer.Complete (t : Transfer) (rows : List (Int × Int)) : Prop where
  /-- Every byte is written. -/
  covered : ∀ x, 0 ≤ x → x < t.layout.effectiveTotalBytes → ∃ s ∈ t.written, s.Contains x
  /-- Every segment is flushed. -/
  flushed : rows = t.layout.segments.values.map fun s ↦ (s.index, s.downloadedBytes)
  /-- Every segment's progress is its size. -/
  full : ∀ k seg, t.layout.segments.get? k = some seg →
    seg.downloadedBytes = seg.size ∧
      (restoreSegment ⟨seg.index, seg.startByte, seg.endByte, seg.downloadedBytes⟩).state =
        .completed

private theorem eq_of_sum_le {α : Type*} {f g : α → Int} : ∀ {l : List α},
    (∀ x ∈ l, f x ≤ g x) → (l.map g).sum ≤ (l.map f).sum → ∀ x ∈ l, f x = g x
  | [], _, _, x, hx => absurd hx List.not_mem_nil
  | a :: l, hle, hsum, x, hx => by
    have ha := hle a List.mem_cons_self
    have hrest : ∀ y ∈ l, f y ≤ g y := fun y hy ↦ hle y (List.mem_cons_of_mem _ hy)
    have hle' := List.sum_le_sum hrest
    rw [List.map_cons, List.map_cons, List.sum_cons, List.sum_cons] at hsum
    rcases List.mem_cons.mp hx with rfl | hx
    · omega
    · exact eq_of_sum_le hrest (by omega) x hx

/-- A layout whose progress is written, nowhere above the size of its segment, and adds up to
the total is completely written. -/
theorem complete_of_sum {t : Transfer} (h : t.Inv)
    (hsize : ∀ k seg, t.layout.segments.get? k = some seg → seg.downloadedBytes ≤ seg.size)
    (hsum : t.layout.effectiveTotalBytes ≤
      (t.layout.segments.values.map LiveSegment.downloadedBytes).sum) :
    t.Complete (t.layout.segments.values.map fun s ↦ (s.index, s.downloadedBytes)) := by
  have htotal := h.wf.tiles.sum_length h.wf.positive.le
  rw [spans, List.map_map, Int.sub_zero] at htotal
  have hfull : ∀ s ∈ t.layout.segments.values, s.downloadedBytes = s.size := by
    apply eq_of_sum_le
    · intro s hs
      obtain ⟨k, hk⟩ := (SortedMap.mem_values_iff _).mp hs
      exact hsize k s hk
    · exact le_trans (le_of_eq htotal) hsum
  refine ⟨fun x hlo hhi ↦ ?_, rfl, fun k seg hk ↦ ?_⟩
  · obtain ⟨r, hr, hx⟩ := h.wf.tiles.exists_contains hlo hhi
    obtain ⟨s, hs, rfl⟩ := List.mem_map.mp hr
    obtain ⟨k, hk⟩ := (SortedMap.mem_values_iff _).mp hs
    have hdown := hfull s hs
    obtain ⟨hstart, hend⟩ : s.startByte ≤ x ∧ x ≤ s.endByte := hx
    apply (h.segments k s hk).1 x hstart
    rw [hdown, LiveSegment.size]
    omega
  · have hdown := hfull seg ((SortedMap.mem_values_iff _).mpr ⟨k, hk⟩)
    have hrange := h.wf.range hk
    refine ⟨hdown, ?_⟩
    simp only [restoreSegment]
    rw [if_pos]
    rw [hdown, LiveSegment.size]
    omega

/-- The states verification can end in. -/
theorem verify_cases (t : Transfer) :
    t.verify = { t.change (.syncDownloaded t.published) with phase := .failed } ∨
    (t.layout.step (.syncDownloaded t.published)).effectiveTotalBytes ≤
        ((t.layout.step (.syncDownloaded t.published)).segments.values.map
          LiveSegment.downloadedBytes).sum ∧
      t.verify = { t.change (.syncDownloaded t.published) with
        phase := .ok ((t.layout.step (.syncDownloaded t.published)).segments.values.map
          fun s ↦ (s.index, s.downloadedBytes)) } := by
  simp only [Transfer.verify]
  split
  · exact Or.inl rfl
  · next hsum =>
    split
    · exact Or.inl rfl
    · exact Or.inr ⟨not_lt.mp hsum, rfl⟩

/-- Synchronisation changes no state. -/
theorem state_sync {segments : SegmentMap} {shared : List (Int × Int)} {k : Int}
    {seg' : LiveSegment}
    (h : (syncDownloadedFromShared segments shared).get? k = some seg') :
    ∃ seg, segments.get? k = some seg ∧ seg.state = seg'.state := by
  unfold syncDownloadedFromShared at h
  induction shared generalizing segments with
  | nil => exact ⟨seg', h, rfl⟩
  | cons info shared ih =>
    rw [List.foldl_cons] at h
    obtain ⟨seg, hseg, hstate⟩ := ih h
    rw [SortedMap.get?_modify] at hseg
    split at hseg
    · obtain ⟨s, hs, rfl⟩ := Option.map_eq_some_iff.mp hseg
      refine ⟨s, hs, ?_⟩
      rw [← hstate]
      split <;> rfl
    · exact ⟨seg, hseg, hstate⟩

/-- A clean verification that succeeds leaves the file complete. -/
theorem complete_verify {t : Transfer} (h : t.Inv)
    (hclean : TransferAction.Clean t (.coordinator .verify)) {rows : List (Int × Int)}
    (hok : t.verify.phase = .ok rows) : t.verify.Complete rows := by
  obtain ⟨hnext, hclean⟩ := hclean
  have hsync := inv_sync h hnext
  rcases verify_cases t with heq | ⟨hsum, heq⟩
  · rw [heq] at hok
    exact absurd hok (by simp)
  · rw [heq] at hok ⊢
    obtain rfl := Phase.ok.inj hok
    refine { complete_of_sum hsync (fun k seg hk ↦ ?_) hsum with }
    -- A completed segment is within its size by the invariant, any other one by cleanness.
    by_cases hcompleted : ∀ s, t.layout.segments.get? k = some s → s.state ≠ .completed
    · exact hclean k hcompleted seg hk
    · push Not at hcompleted
      obtain ⟨s, hs, hstate⟩ := hcompleted
      obtain ⟨s', hs', hstate'⟩ := state_sync hk
      rw [hs] at hs'
      obtain rfl := Option.some.inj hs'
      exact (hsync.segments k seg hk).2 (hstate'.symm.trans hstate)

/-! ## Runs -/

/-- The invariant, and completeness once the download has succeeded. -/
private def Good (t : Transfer) : Prop :=
  t.Inv ∧ ∀ rows, t.phase = .ok rows → t.Complete rows

private theorem phase_coordinate {t : Transfer} (hrunning : t.phase = .running)
    (a : CoordinatorAction) (rows : List (Int × Int)) : (t.coordinate a).phase ≠ .ok rows := by
  have hok : t.phase ≠ .ok rows := by
    rw [hrunning]
    exact fun h ↦ Phase.noConfusion h
  cases a with
  | dispatch w windowCap =>
    simp only [Transfer.coordinate]
    split <;> exact hok
  | reclaim =>
    simp only [Transfer.coordinate]
    split <;> exact hok
  | handleEvent verdict preallocated =>
    simp only [Transfer.coordinate]
    split
    · exact hok
    · next event rest _ =>
      unfold Transfer.handle
      split <;> try exact hok
      split
      · exact hok
      · exact hok
      · exact fun h ↦ Phase.noConfusion h
  | exitLoop =>
    simp only [Transfer.coordinate]
    split
    · exact fun h ↦ Phase.noConfusion h
    · exact hok
  | _ => exact hok

/-- A worker changes neither the layout nor the phase and writes only more. -/
theorem frame_work (t : Transfer) (w : Nat) (worker : Worker) (a : WorkerAction) :
    (t.work w worker a).layout = t.layout ∧ (t.work w worker a).phase = t.phase ∧
      ∀ s ∈ t.written, s ∈ (t.work w worker a).written := by
  cases a <;> simp only [Transfer.work] <;> (try split) <;>
    refine ⟨rfl, rfl, fun s hs ↦ ?_⟩ <;>
    first
      | exact hs
      | exact List.mem_cons_of_mem _ hs

private theorem good_step (t : Transfer) (a : TransferAction) (h : Good t)
    (hclean : a.Clean t) : Good (t.step a) := by
  obtain ⟨hinv, hcomplete⟩ := h
  cases a with
  | worker w a =>
    simp only [Transfer.step]
    split
    · next worker hget =>
      refine ⟨inv_work hinv hget a, fun rows hok ↦ ?_⟩
      obtain ⟨hlayout, hphase, hwritten⟩ := frame_work t w worker a
      have hold := hcomplete rows (hphase ▸ hok)
      refine ⟨fun x hlo hhi ↦ ?_, hlayout ▸ hold.flushed, hlayout ▸ hold.full⟩
      obtain ⟨s, hs, hx⟩ := hold.covered x hlo (hlayout ▸ hhi)
      exact ⟨s, hwritten s hs, hx⟩
    · exact ⟨hinv, hcomplete⟩
  | coordinator a =>
    by_cases hverify : a = .verify
    · subst hverify
      simp only [Transfer.step]
      split
      · refine ⟨?_, fun rows hok ↦ complete_verify hinv hclean hok⟩
        have hsync := inv_sync hinv hclean.1
        rcases verify_cases t with heq | ⟨-, heq⟩ <;> rw [heq] <;> exact { hsync with }
      · exact ⟨hinv, hcomplete⟩
    · have hstep : t.step (.coordinator a) =
          if t.phase = .running then t.coordinate a else t := by
        cases a <;> first | rfl | exact absurd rfl hverify
      rw [hstep]
      split
      · next hrunning =>
        exact ⟨inv_coordinate hinv hclean,
          fun rows hok ↦ absurd hok (phase_coordinate hrunning a rows)⟩
      · exact ⟨hinv, hcomplete⟩

private theorem good_initial {layout : Layout} {written : List Span} (hinit : layout.Initial)
    (hstored : AllOk written layout.segments) : Good (Transfer.initial layout written) := by
  have hwf := hinit.wf
  refine ⟨⟨hwf, hstored, fun k info hk ↦ ?_, fun _ _ hw ↦ absurd hw (by simp [Transfer.initial]),
    fun _ _ hn ↦ absurd hn List.not_mem_nil, fun _ hwork ↦ absurd hwork (by simp [Transfer.initial])⟩,
    fun rows hok ↦ absurd hok (by simp [Transfer.initial])⟩
  simp only [Transfer.initial, buildSegStateVec, SortedMap.get?_mapValues,
    Option.map_eq_some_iff] at hk
  obtain ⟨seg, hseg, rfl⟩ := hk
  exact ⟨_, owned_segment hwf hstored hseg⟩

/-- In every interleaving of clean steps, a download that succeeds has written every byte of
the file and flushes exactly the size of every segment. -/
theorem transfer_ok_no_hole (layout : Layout) (hinit : layout.Initial) (written : List Span)
    (hstored : AllOk written layout.segments) (actions : List TransferAction)
    (hclean : EveryStep Transfer.step (fun t a ↦ a.Clean t)
      (Transfer.initial layout written) actions) (rows : List (Int × Int))
    (hok : (run Transfer.step (Transfer.initial layout written) actions).phase = .ok rows) :
    (run Transfer.step (Transfer.initial layout written) actions).Complete rows :=
  (run_invariant good_step (good_initial hinit hstored) hclean).2 rows hok

/-- A verification after all segments are done is clean. -/
theorem clean_verify_of_allDone {t : Transfer} (hnext : t.layout.nextIndex < i32Max)
    (hdone : allDone t.layout.segments = true) :
    TransferAction.Clean t (.coordinator .verify) := by
  refine ⟨hnext, fun idx hunfinished seg' hseg' ↦ ?_⟩
  obtain ⟨seg, hseg, -⟩ := state_sync hseg'
  have hmem := (SortedMap.mem_values_iff _).mpr ⟨idx, hseg⟩
  have hcompleted := List.all_eq_true.mp hdone seg hmem
  exact absurd (of_decide_eq_true hcompleted) (hunfinished seg hseg)

/-- Handling a completion is clean. -/
theorem clean_handleEvent_done {t : Transfer} (hnext : t.layout.nextIndex < i32Max)
    {verdict : FailureVerdict} {preallocated : Bool} (idx n : Int)
    (hhead : t.events.head? = some (.done idx n)) :
    TransferAction.Clean t (.coordinator (.handleEvent verdict preallocated)) := by
  refine ⟨hnext, fun idx' h ↦ ?_⟩
  rw [hhead] at h
  rcases h with h | ⟨h, -⟩ <;> exact absurd h (by simp)

/-- Handling a preemption is clean where the segment has published no more than its size. -/
theorem clean_handleEvent_preempted {t : Transfer} (hnext : t.layout.nextIndex < i32Max)
    {verdict : FailureVerdict} {preallocated : Bool} {idx : Int}
    (hhead : t.events.head? = some (.preempted idx)) (hsize : t.WithinSize idx) :
    TransferAction.Clean t (.coordinator (.handleEvent verdict preallocated)) := by
  refine ⟨hnext, fun idx' h ↦ ?_⟩
  rw [hhead] at h
  rcases h with h | ⟨h, -⟩
  · obtain rfl := WorkerEvent.preempted.inj (Option.some.inj h)
    exact hsize
  · cases h

/-- The step handles no event and verifies nothing. -/
def TransferAction.isPlain : TransferAction → Bool
  | .coordinator (.handleEvent _ _) => false
  | .coordinator .verify => false
  | _ => true

/-- Other steps are clean while there is an index left. -/
theorem clean_of_isPlain (t : Transfer) (a : TransferAction)
    (h : t.layout.nextIndex < i32Max ∧ a.isPlain = true) : TransferAction.Clean t a := by
  refine ⟨h.1, ?_⟩
  cases a with
  | worker w a => trivial
  | coordinator a => cases a <;> first | trivial | cases h.2

/-- A worker has its segment split, reads the new boundary, writes up to it and is preempted. -/
def preemptedActions : List TransferAction :=
  [.coordinator (.findNextWork 65536 ⟨0.0, none⟩), .coordinator .rebuildSegStates,
    .coordinator (.dispatch 0 none), .worker 0 .readEnd, .worker 0 (.write 65536),
    .worker 0 (.publishProgress 65536), .coordinator .sync,
    .coordinator (.tryProactiveSplit 65536 ⟨0.0, none⟩), .coordinator .rebuildSegStates,
    .worker 0 .readEnd, .worker 0 (.write 98304), .worker 0 (.publishProgress 163840),
    .worker 0 .preempt]

/-- It downloads the second segment. -/
def secondActions : List TransferAction :=
  [.coordinator (.findNextWork 65536 ⟨0.0, none⟩), .coordinator .rebuildSegStates,
    .coordinator (.dispatch 0 none), .worker 0 .readEnd, .worker 0 (.write 98304),
    .worker 0 (.publishProgress 98304), .worker 0 (.finish 98304)]

/-- Both segments are taken in, and the download ends. -/
def splitActions : List TransferAction :=
  preemptedActions ++ .coordinator (.handleEvent .fatal false) :: (secondActions ++
    [.coordinator (.handleEvent .fatal false), .coordinator .exitLoop, .coordinator .verify])

/-- The run over a file of 262144 bytes. -/
theorem transfer_ok_no_hole_split :
    (run Transfer.step (Transfer.initial (Layout.fresh 1 262144) []) splitActions).Complete
      [(0, 163840), (1, 98304)] := by
  apply transfer_ok_no_hole (Layout.fresh 1 262144) (.fresh 1 262144 (by decide) (by decide))
  · intro k seg hk
    obtain ⟨-, _, _, rfl⟩ := get?_buildFreshSegments hk
    exact segOk_pending _ _ _ _
  · refine everyStep_append.mpr ⟨EveryStep.mono clean_of_isPlain (by decide), ?_,
      everyStep_append.mpr ⟨EveryStep.mono clean_of_isPlain (by decide),
        clean_handleEvent_done (by decide) 1 98304 (by decide),
        clean_of_isPlain _ _ (by decide), clean_verify_of_allDone (by decide) (by decide),
        trivial⟩⟩
    -- the worker saw the new boundary, so it has published no more than the segment's size
    exact clean_handleEvent_preempted (by decide) (show _ = some (WorkerEvent.preempted 0) by decide)
      (by decide)
  · decide

/-- A worker that writes past a boundary cut meanwhile, is preempted and has its segment closed
with the published progress. -/
def overshootActions : List TransferAction :=
  [.coordinator (.findNextWork 65536 ⟨0.0, none⟩), .coordinator .rebuildSegStates,
    .coordinator (.dispatch 0 none), .worker 0 .readEnd, .worker 0 (.write 65536),
    .worker 0 (.publishProgress 65536), .coordinator .sync,
    .coordinator (.tryProactiveSplit 65536 ⟨0.0, none⟩),
    -- The new boundary is not published yet when the next chunk arrives.
    .worker 0 .readEnd, .worker 0 (.write 131072), .worker 0 (.publishProgress 196608),
    .coordinator .rebuildSegStates, .worker 0 .preempt,
    .coordinator (.handleEvent .fatal false), .coordinator (.findNextWork 65536 ⟨0.0, none⟩),
    .coordinator .rebuildSegStates, .coordinator (.dispatch 0 none), .worker 0 .readEnd,
    .worker 0 (.write 98304), .worker 0 (.publishProgress 98304), .worker 0 (.finish 98304),
    .coordinator (.handleEvent .fatal false), .coordinator .exitLoop, .coordinator .verify]

/-- The overshooting run succeeds and flushes 196608 bytes for segment 0, whose size is
163840. -/
theorem transfer_ok_overshoots :
    (run Transfer.step (Transfer.initial (Layout.fresh 1 262144) []) overshootActions).phase =
      .ok [(0, 196608), (1, 98304)] ∧
    ((run Transfer.step (Transfer.initial (Layout.fresh 1 262144) [])
      overshootActions).layout.segments.get? 0).map LiveSegment.size = some 163840 := by
  decide

end Engine
