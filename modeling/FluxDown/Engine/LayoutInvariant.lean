import FluxDown.Engine.Layout

/-!
# Layout invariant

Library `Engine`. The segments always tile the planned file, `nextIndex` stays above every
index and an index never changes the start of its range. What an operation can do to a layout
is one of four changes, `LayoutChange`: a segment is touched without moving a boundary, cut,
appended behind the file, or merged with its right neighbours. Both the invariant and the
stability of starts are proved for a change and hence for every run.
-/

namespace Engine

open Base

/-- Indices and ranges of a map, without progress and state. -/
def shape (segments : SegmentMap) : SortedMap Int (Int × Span) :=
  segments.mapValues fun _ s ↦ (s.index, s.span)

/-- The shape of a segment. -/
@[simp] theorem get?_shape (segments : SegmentMap) (k : Int) :
    (shape segments).get? k = (segments.get? k).map fun s ↦ (s.index, s.span) :=
  segments.get?_mapValues _ _

private theorem spans_eq_shape (segments : SegmentMap) :
    spans segments = (shape segments).values.map Prod.snd := by
  rw [shape, SortedMap.values_mapValues, List.map_map]
  rfl

/-- Segments of the same shape are stored under their indices. -/
theorem Keyed.of_shape {segments segments' : SegmentMap} (h : Keyed segments)
    (hshape : shape segments' = shape segments) : Keyed segments' := by
  intro k seg hk
  have hget := congrArg (·.get? k) hshape
  simp only [get?_shape, hk, Option.map_some] at hget
  obtain ⟨seg', hseg', heq⟩ := Option.map_eq_some_iff.mp hget.symm
  rw [← (Prod.mk.inj heq).1]
  exact h k seg' hseg'

/-- A pointwise update that keeps index and range keeps the shape. -/
theorem shape_modify {segments : SegmentMap} {idx : Int} {f : LiveSegment → LiveSegment}
    (h : ∀ s, segments.get? idx = some s → (f s).index = s.index ∧ (f s).span = s.span) :
    shape (segments.modify idx f) = shape segments := by
  refine SortedMap.ext_get? fun k ↦ ?_
  rw [get?_shape, get?_shape, SortedMap.get?_modify]
  split
  · next hk =>
    subst hk
    cases hget : segments.get? k with
    | none => rfl
    | some s =>
      obtain ⟨hindex, hspan⟩ := h s hget
      simp [hindex, hspan]
  · rfl

/-! ## The invariant -/

/-- Well-formed layouts. -/
structure Layout.WF (l : Layout) : Prop where
  /-- Every segment is stored under its index. -/
  keyed : Keyed l.segments
  /-- The ranges partition `[0, effectiveTotalBytes - 1]`, none of them empty. -/
  tiles : Tiles (spans l.segments) 0 l.effectiveTotalBytes
  /-- The file is not empty. -/
  positive : 0 < l.effectiveTotalBytes
  /-- Every index is below the next one. -/
  below : ∀ k seg, l.segments.get? k = some seg → k < l.nextIndex
  /-- The next index is not negative. -/
  nextNonneg : 0 ≤ l.nextIndex
  /-- Progress is never negative. -/
  progress : ∀ k seg, l.segments.get? k = some seg → 0 ≤ seg.downloadedBytes

/-- The next index is free. -/
theorem Layout.WF.next_free {l : Layout} (h : l.WF) : l.segments.get? l.nextIndex = none := by
  cases hget : l.segments.get? l.nextIndex with
  | none => rfl
  | some seg => exact absurd (h.below _ seg hget) (lt_irrefl _)

/-- A stored range is not empty and lies in the file. -/
theorem Layout.WF.range {l : Layout} (h : l.WF) {k : Int} {seg : LiveSegment}
    (hget : l.segments.get? k = some seg) :
    0 ≤ seg.startByte ∧ seg.startByte ≤ seg.endByte ∧ seg.endByte < l.effectiveTotalBytes := by
  have hmem : seg.span ∈ spans l.segments :=
    List.mem_map_of_mem (l.segments.mem_values_iff.mpr ⟨k, hget⟩)
  have hne : seg.startByte ≤ seg.endByte := h.tiles.nonempty _ hmem
  exact ⟨(h.tiles.bounds hmem).1, hne, (h.tiles.bounds hmem).2⟩

/-- Every segment of the later layout whose index the earlier one had already given out starts
where it started there. -/
structure StartsKept (l l' : Layout) : Prop where
  /-- Indices are given out in increasing order. -/
  next : l.nextIndex ≤ l'.nextIndex
  /-- An index given out before belongs to the same start. -/
  start : ∀ k seg', k < l.nextIndex → l'.segments.get? k = some seg' →
    ∃ seg, l.segments.get? k = some seg ∧ seg.startByte = seg'.startByte

/-- Every start is kept by itself. -/
theorem StartsKept.refl (l : Layout) : StartsKept l l where
  next := le_refl _
  start _ seg' _ h := ⟨seg', h, rfl⟩

/-- Starts that are kept twice are kept. -/
theorem StartsKept.trans {l₁ l₂ l₃ : Layout} (h₁₂ : StartsKept l₁ l₂) (h₂₃ : StartsKept l₂ l₃) :
    StartsKept l₁ l₃ where
  next := le_trans h₁₂.next h₂₃.next
  start k seg₃ hk h := by
    obtain ⟨seg₂, hseg₂, heq₂⟩ := h₂₃.start k seg₃ (lt_of_lt_of_le hk h₁₂.next) h
    obtain ⟨seg₁, hseg₁, heq₁⟩ := h₁₂.start k seg₂ hk hseg₂
    exact ⟨seg₁, hseg₁, heq₁.trans heq₂⟩

/-- What one operation can do to a layout. -/
inductive LayoutChange (l l' : Layout) : Prop
  /-- Progress and states change, no boundary moves. -/
  | touch (shape_eq : shape l'.segments = shape l.segments)
      (next : l'.nextIndex = l.nextIndex) (total : l'.effectiveTotalBytes = l.effectiveTotalBytes)
      (progress : ∀ k seg, l'.segments.get? k = some seg → 0 ≤ seg.downloadedBytes)
  /-- A segment is cut at `m`; its upper part gets the next index. -/
  | cut (idx m : Int) (seg lower upper : LiveSegment)
      (found : l.segments.get? idx = some seg) (lo : seg.startByte < m) (hi : m ≤ seg.endByte)
      (lower_index : lower.index = seg.index) (lower_span : lower.span = ⟨seg.startByte, m - 1⟩)
      (lower_progress : 0 ≤ lower.downloadedBytes)
      (upper_index : upper.index = l.nextIndex) (upper_span : upper.span = ⟨m, seg.endByte⟩)
      (upper_progress : upper.downloadedBytes = 0)
      (segments : l'.segments = (l.segments.insert idx lower).insert l.nextIndex upper)
      (next : l'.nextIndex = l.nextIndex + 1)
      (total : l'.effectiveTotalBytes = l.effectiveTotalBytes)
  /-- A segment with the next index is appended behind the file. -/
  | grow (tail : LiveSegment) (larger : l.effectiveTotalBytes < l'.effectiveTotalBytes)
      (tail_index : tail.index = l.nextIndex)
      (tail_span : tail.span = ⟨l.effectiveTotalBytes, l'.effectiveTotalBytes - 1⟩)
      (tail_progress : tail.downloadedBytes = 0)
      (segments : l'.segments = l.segments.insert l.nextIndex tail)
      (next : l'.nextIndex = l.nextIndex + 1)
  /-- A segment takes over the segments that follow it. -/
  | merge (idx newEnd : Int) (seg : LiveSegment) (absorbed : List LiveSegment)
      (found : l.segments.get? idx = some seg)
      (stored : ∀ t ∈ absorbed, l.segments.get? t.index = some t ∧ t.index ≠ idx)
      (follow : Chain (seg.endByte + 1) (absorbed.map LiveSegment.span) (newEnd + 1))
      (segments : l'.segments = (l.segments.eraseAll (absorbed.map LiveSegment.index)).insert idx
        { seg with endByte := newEnd })
      (next : l'.nextIndex = l.nextIndex)
      (total : l'.effectiveTotalBytes = l.effectiveTotalBytes)

/-! ## A change keeps the invariant -/

private theorem spans_insert_fresh {segments : SegmentMap} {k : Int} (seg : LiveSegment)
    (h : segments.get? k = none) :
    (spans (segments.insert k seg)).Perm (seg.span :: spans segments) :=
  (segments.values_insert_fresh_perm seg h).map LiveSegment.span

private theorem tiles_cut {segments : SegmentMap} {total idx next m : Int}
    {seg lower upper : LiveSegment} (h : Tiles (spans segments) 0 total)
    (hfound : segments.get? idx = some seg) (hne : next ≠ idx)
    (hfree : segments.get? next = none) (hlo : seg.startByte < m) (hhi : m ≤ seg.endByte)
    (hlower : lower.span = ⟨seg.startByte, m - 1⟩) (hupper : upper.span = ⟨m, seg.endByte⟩) :
    Tiles (spans ((segments.insert idx lower).insert next upper)) 0 total := by
  have hfree' : (segments.insert idx lower).get? next = none := by
    rw [SortedMap.get?_insert, if_neg hne, hfree]
  have hbefore := (segments.values_perm_of_get? hfound).map LiveSegment.span
  have hafter := (spans_insert_fresh upper hfree').trans
    (((segments.values_insert_perm idx lower).map LiveSegment.span).cons upper.span)
  rw [List.map_cons, hupper, hlower] at hafter
  exact (((h.perm hbefore).split hlo hhi).perm (List.Perm.swap _ _ _)).perm hafter.symm

private theorem tiles_merge {segments : SegmentMap} {total idx newEnd : Int}
    {seg : LiveSegment} {absorbed : List LiveSegment} (h : Tiles (spans segments) 0 total)
    (hfound : segments.get? idx = some seg)
    (hstored : ∀ t ∈ absorbed, segments.get? t.index = some t ∧ t.index ≠ idx)
    (hfollow : Chain (seg.endByte + 1) (absorbed.map LiveSegment.span) (newEnd + 1)) :
    Tiles (spans ((segments.eraseAll (absorbed.map LiveSegment.index)).insert idx
      { seg with endByte := newEnd })) 0 total := by
  -- A chain lists no interval twice, so the absorbed segments are distinct.
  have hnodup : (absorbed.map fun t ↦ (t.index, t)).Nodup := by
    have hspans : ((absorbed.map fun t ↦ (t.index, t)).map fun e ↦ e.2.span).Nodup := by
      rw [List.map_map]
      exact hfollow.nodup
    exact hspans.of_map
  have hin : ∀ e ∈ absorbed.map fun t ↦ (t.index, t), e ∈ segments.entries := by
    intro e he
    obtain ⟨t, ht, rfl⟩ := List.mem_map.mp he
    exact segments.get?_eq_some_iff.mp (hstored t ht).1
  have hperm := segments.entries_perm_eraseAll hnodup hin
  rw [List.map_map] at hperm
  have hkeys : absorbed.map (Prod.fst ∘ fun t ↦ (t.index, t)) = absorbed.map LiveSegment.index :=
    rfl
  rw [hkeys] at hperm
  generalize hrest : segments.eraseAll (absorbed.map LiveSegment.index) = rest at hperm ⊢
  have hfound' : rest.get? idx = some seg := by
    rw [← hrest, SortedMap.get?_eraseAll, if_neg, hfound]
    intro hmem
    obtain ⟨t, ht, hidx⟩ := List.mem_map.mp hmem
    exact (hstored t ht).2 hidx
  have hbefore : (spans segments).Perm (seg.span ::
      (absorbed.map LiveSegment.span ++ spans (rest.erase idx))) := by
    have h₁ := hperm.map fun e ↦ e.2.span
    rw [List.map_append, List.map_map] at h₁
    have h₂ := (rest.values_perm_of_get? hfound').map LiveSegment.span
    have h₃ : (spans segments).Perm (absorbed.map LiveSegment.span ++ spans rest) := by
      rw [spans, spans, SortedMap.values, SortedMap.values, List.map_map, List.map_map]
      exact h₁
    exact h₃.trans ((h₂.append_left _).trans List.perm_middle)
  have hafter := (rest.values_insert_perm idx { seg with endByte := newEnd }).map LiveSegment.span
  exact ((h.perm hbefore).join_chain hfollow).perm hafter.symm

/-- A layout whose segments are old ones or obey the invariant themselves is well-formed. -/
theorem wf_of_segments {l l' : Layout} (hwf : l.WF)
    (hsegments : ∀ k s, l'.segments.get? k = some s → l.segments.get? k = some s ∨
      (s.index = k ∧ k < l'.nextIndex ∧ 0 ≤ s.downloadedBytes))
    (hnext : l.nextIndex ≤ l'.nextIndex)
    (htotal : l.effectiveTotalBytes ≤ l'.effectiveTotalBytes)
    (htiles : Tiles (spans l'.segments) 0 l'.effectiveTotalBytes) : l'.WF where
  keyed k s hk := (hsegments k s hk).elim (hwf.keyed k s) fun h ↦ h.1
  tiles := htiles
  positive := lt_of_lt_of_le hwf.positive htotal
  below k s hk := (hsegments k s hk).elim
    (fun h ↦ lt_of_lt_of_le (hwf.below k s h) hnext) fun h ↦ h.2.1
  nextNonneg := le_trans hwf.nextNonneg hnext
  progress k s hk := (hsegments k s hk).elim (hwf.progress k s) fun h ↦ h.2.2

/-- A change keeps a layout well-formed. -/
theorem LayoutChange.wf {l l' : Layout} (hwf : l.WF) (h : LayoutChange l l') : l'.WF := by
  cases h with
  | touch hshape hnext htotal hprogress =>
    refine ⟨hwf.keyed.of_shape hshape, ?_, htotal ▸ hwf.positive, ?_, hnext ▸ hwf.nextNonneg,
      hprogress⟩
    · rw [htotal, spans_eq_shape, hshape, ← spans_eq_shape]
      exact hwf.tiles
    · intro k seg hk
      have hget := congrArg (·.get? k) hshape
      simp only [get?_shape, hk, Option.map_some] at hget
      obtain ⟨seg', hseg', -⟩ := Option.map_eq_some_iff.mp hget.symm
      exact hnext ▸ hwf.below k seg' hseg'
  | cut idx m seg lower upper hfound hlo hhi hli hls hlp hui hus hup hsegments hnext htotal =>
    have hbelow := hwf.below idx seg hfound
    refine wf_of_segments hwf (fun k s hk ↦ ?_) (by omega) htotal.ge ?_
    · rw [hsegments, SortedMap.get?_insert, SortedMap.get?_insert] at hk
      split at hk
      · next hk' =>
        obtain rfl := Option.some.inj hk
        exact Or.inr ⟨hui.trans hk'.symm, by omega, hup.ge⟩
      split at hk
      · next hk' =>
        obtain rfl := Option.some.inj hk
        exact Or.inr ⟨(hli.trans (hwf.keyed _ _ hfound)).trans hk'.symm, by omega, hlp⟩
      · exact Or.inl hk
    · rw [hsegments, htotal]
      exact tiles_cut hwf.tiles hfound (by omega) hwf.next_free hlo hhi hls hus
  | grow tail hlarger hti hts htp hsegments hnext =>
    refine wf_of_segments hwf (fun k s hk ↦ ?_) (by omega) hlarger.le ?_
    · rw [hsegments, SortedMap.get?_insert] at hk
      split at hk
      · next hk' =>
        obtain rfl := Option.some.inj hk
        exact Or.inr ⟨hti.trans hk'.symm, by omega, htp.ge⟩
      · exact Or.inl hk
    · have hperm := spans_insert_fresh tail hwf.next_free
      rw [hts] at hperm
      rw [hsegments]
      exact (hwf.tiles.extend hwf.positive.le hlarger).perm hperm.symm
  | merge idx newEnd seg absorbed hfound hstored hfollow hsegments hnext htotal =>
    refine wf_of_segments hwf (fun k s hk ↦ ?_) hnext.ge htotal.ge ?_
    · rw [hsegments, SortedMap.get?_insert, SortedMap.get?_eraseAll] at hk
      split at hk
      · next hk' =>
        obtain rfl := Option.some.inj hk
        exact Or.inr ⟨(hwf.keyed _ _ hfound).trans hk'.symm,
          by rw [hk', hnext]; exact hwf.below _ _ hfound, hwf.progress idx seg hfound⟩
      split at hk
      · exact absurd hk (by simp)
      · exact Or.inl hk
    · rw [hsegments, htotal]
      exact tiles_merge hwf.tiles hfound hstored hfollow

/-- A change keeps every start in place. -/
theorem LayoutChange.startsKept {l l' : Layout} (h : LayoutChange l l') : StartsKept l l' := by
  cases h with
  | touch hshape hnext htotal hprogress =>
    refine ⟨hnext.ge, fun k seg' _ hk ↦ ?_⟩
    have hget := congrArg (·.get? k) hshape
    simp only [get?_shape, hk, Option.map_some] at hget
    obtain ⟨seg, hseg, heq⟩ := Option.map_eq_some_iff.mp hget.symm
    exact ⟨seg, hseg, congrArg Span.lo (Prod.mk.inj heq).2⟩
  | cut idx m seg lower upper hfound hlo hhi hli hls hlp hui hus hup hsegments hnext htotal =>
    refine ⟨by omega, fun k seg' hlt hk ↦ ?_⟩
    rw [hsegments, SortedMap.get?_insert, if_neg (by omega), SortedMap.get?_insert] at hk
    split at hk
    · next hk' =>
      obtain rfl := Option.some.inj hk
      exact ⟨seg, hk' ▸ hfound, (congrArg Span.lo hls).symm⟩
    · exact ⟨seg', hk, rfl⟩
  | grow tail hlarger hti hts htp hsegments hnext =>
    refine ⟨by omega, fun k seg' hlt hk ↦ ?_⟩
    rw [hsegments, SortedMap.get?_insert, if_neg (by omega)] at hk
    exact ⟨seg', hk, rfl⟩
  | merge idx newEnd seg absorbed hfound hstored hfollow hsegments hnext htotal =>
    refine ⟨hnext.ge, fun k seg' _ hk ↦ ?_⟩
    rw [hsegments, SortedMap.get?_insert, SortedMap.get?_eraseAll] at hk
    split at hk
    · next hk' =>
      obtain rfl := Option.some.inj hk
      exact ⟨seg, hk' ▸ hfound, rfl⟩
    split at hk
    · exact absurd hk (by simp)
    · exact ⟨seg', hk, rfl⟩

/-! ## Every operation is a change -/

private theorem change_refl {l : Layout} (hwf : l.WF) : LayoutChange l l :=
  .touch rfl rfl rfl hwf.progress

/-- A pointwise update that keeps index and range and makes no progress negative. -/
theorem change_modify {l : Layout} (hwf : l.WF) (idx : Int) {f : LiveSegment → LiveSegment}
    (hshape : ∀ s, (f s).index = s.index ∧ (f s).span = s.span)
    (hprogress : ∀ s, l.segments.get? idx = some s → 0 ≤ (f s).downloadedBytes) :
    LayoutChange l { l with segments := l.segments.modify idx f } := by
  refine .touch (shape_modify fun s _ ↦ hshape s) rfl rfl fun k seg hk ↦ ?_
  change (l.segments.modify idx f).get? k = some seg at hk
  rw [SortedMap.get?_modify] at hk
  split at hk
  · next hk' =>
    obtain ⟨s, hs, rfl⟩ := Option.map_eq_some_iff.mp hk
    exact hprogress s (hk' ▸ hs)
  · exact hwf.progress k seg hk

private theorem change_setState {l : Layout} (hwf : l.WF) (idx : Int) (state : SegState) :
    LayoutChange l { l with segments := setState l.segments idx state } :=
  change_modify hwf idx (fun _ ↦ ⟨rfl, rfl⟩) fun s hs ↦ hwf.progress idx s hs

/-- A split behind the progress of a segment. -/
theorem change_split {l : Layout} (hwf : l.WF) (hnext : l.nextIndex < i32Max) {idx point : Int}
    {seg : LiveSegment} (state : SegState) (hget : l.segments.get? idx = some seg)
    (hlo : seg.startByte + seg.downloadedBytes < point) (hhi : point ≤ seg.endByte) :
    LayoutChange l { l with
      segments := splitSegment l.segments l.nextIndex idx point seg.endByte state
      nextIndex := wrapI32 (l.nextIndex + 1) } := by
  have hprogress := hwf.progress idx seg hget
  have hnonneg := hwf.nextNonneg
  refine .cut idx point seg { seg with endByte := point - 1 }
    (splitChild l.nextIndex point seg.endByte state) hget (by omega) hhi rfl rfl hprogress rfl rfl
    rfl ?_ (wrapI32_of_range (by omega) (by omega)) rfl
  dsimp only [splitSegment]
  rw [l.segments.modify_of_get? _ hget]

/-- Completion keeps the range or hands its undownloaded part to a new segment. -/
theorem change_done {l : Layout} (hwf : l.WF) (hnext : l.nextIndex < i32Max)
    (segIndex : Int) {downloadedBytes : Int} (hdownloaded : 0 ≤ downloadedBytes) :
    LayoutChange l (l.step (.done segIndex downloadedBytes)) := by
  have hnonneg := hwf.nextNonneg
  dsimp only [Layout.step]
  rcases handleDone_cases l.segments l.nextIndex segIndex downloadedBytes with
    h | ⟨seg, hget, hpos, hlt, h⟩ | h <;> rw [h]
  · exact change_refl hwf
  · have hrange := hwf.range hget
    unfold LiveSegment.size at hlt
    refine .cut segIndex (seg.startByte + downloadedBytes) seg
      (completeShort downloadedBytes seg)
      (pendingSegment l.nextIndex (seg.startByte + downloadedBytes) seg.endByte) hget (by omega)
      (by omega) rfl rfl hdownloaded rfl rfl rfl ?_ (wrapI32_of_range (by omega) (by omega)) rfl
    dsimp only
    rw [l.segments.modify_of_get? _ hget]
  · refine change_modify hwf segIndex (f := completeSegment downloadedBytes)
      (fun _ ↦ ⟨rfl, rfl⟩) fun s hs ↦ ?_
    have hrange := hwf.range hs
    simp only [completeSegment, LiveSegment.size]
    omega

/-- Growth appends the tail segment. -/
theorem change_expand {l : Layout} (hwf : l.WF) (hnext : l.nextIndex < i32Max)
    {reportedTotal : Int} (hlarger : l.effectiveTotalBytes < reportedTotal) :
    LayoutChange l (l.expand reportedTotal) := by
  have hnonneg := hwf.nextNonneg
  exact .grow _ hlarger rfl rfl rfl rfl (wrapI32_of_range (by omega) (by omega))

/-- The absorbed segments are stored, pending, and follow one another. -/
theorem absorbScan_spec {segments : SegmentMap} (hkeyed : Keyed segments)
    (hne : ∀ s ∈ segments.values, s.span.Nonempty) (fuel : Nat) (newEnd : Int) :
    Chain (newEnd + 1) ((absorbScan segments fuel newEnd).2.map LiveSegment.span)
        ((absorbScan segments fuel newEnd).1 + 1) ∧
      ∀ t ∈ (absorbScan segments fuel newEnd).2,
        segments.get? t.index = some t ∧ t.state = .pending := by
  induction fuel generalizing newEnd with
  | zero => exact ⟨rfl, fun t ht ↦ absurd ht List.not_mem_nil⟩
  | succ fuel ih =>
    rw [absorbScan]
    cases hfind : nextAbsorbed segments newEnd with
    | none => exact ⟨rfl, fun t ht ↦ absurd ht List.not_mem_nil⟩
    | some s =>
      obtain ⟨hchain, hstored⟩ := ih s.endByte
      have hmem := List.mem_of_find?_eq_some hfind
      have hs : s.state = .pending ∧ s.downloadedBytes = 0 ∧ s.startByte = newEnd + 1 := by
        simpa using List.find?_some hfind
      refine ⟨⟨hs.2.2, hne s hmem, hchain⟩, fun t ht ↦ ?_⟩
      rcases List.mem_cons.mp ht with rfl | ht
      · obtain ⟨k, hk⟩ := segments.mem_values_iff.mp hmem
        exact ⟨by rw [hkeyed k t hk, hk], hs.1⟩
      · exact hstored t ht

/-- Absorption merges the open segment with its pending right neighbours. -/
theorem change_absorb {l : Layout} (hwf : l.WF) (openEndedStreaming : Option Int)
    (persisted : Bool) : LayoutChange l (l.step (.absorb openEndedStreaming persisted)) := by
  dsimp only [Layout.step]
  unfold absorbPendingIntoOpenStream
  split
  · exact change_refl hwf
  · next openIdx =>
    split
    · exact change_refl hwf
    · next openSeg hopen =>
      obtain ⟨hget, hactive⟩ := Option.filter_eq_some_iff.mp hopen
      have hactive : openSeg.state = .active := by simpa using hactive
      dsimp only
      split
      · exact change_refl hwf
      · have hne : ∀ s ∈ l.segments.values, s.span.Nonempty := fun s hs ↦
          hwf.tiles.nonempty _ (List.mem_map_of_mem hs)
        obtain ⟨hchain, hstored⟩ := absorbScan_spec hwf.keyed hne
          l.segments.entries.length openSeg.endByte
        -- The open segment is active, an absorbed one is pending.
        have hother : ∀ t ∈ (absorbScan l.segments l.segments.entries.length
            openSeg.endByte).2, t.index ≠ openIdx := by
          intro t ht heq
          obtain ⟨hstored, hpending⟩ := hstored t ht
          rw [heq, hget] at hstored
          rw [← Option.some.inj hstored, hactive] at hpending
          exact absurd hpending (by decide)
        refine .merge openIdx _ openSeg _ hget (fun t ht ↦ ⟨(hstored t ht).1, hother t ht⟩)
          hchain ?_ rfl rfl
        dsimp only
        refine SortedMap.modify_of_get? (v := openSeg) _ _ ?_
        rw [SortedMap.get?_eraseAll, if_neg, hget]
        intro hmem
        obtain ⟨t, ht, heq⟩ := List.mem_map.mp hmem
        exact hother t ht heq

/-- Synchronisation moves no boundary. -/
theorem change_sync {l : Layout} (hwf : l.WF) {shared : List (Int × Int)}
    (hshared : ∀ info ∈ shared, 0 ≤ info.2) :
    LayoutChange l (l.step (.syncDownloaded shared)) := by
  have hfold : shape (syncDownloadedFromShared l.segments shared) = shape l.segments ∧
      ∀ k seg, (syncDownloadedFromShared l.segments shared).get? k = some seg →
        0 ≤ seg.downloadedBytes := by
    unfold syncDownloadedFromShared
    generalize hsegs : l.segments = segs
    have hprogress : ∀ k seg, segs.get? k = some seg → 0 ≤ seg.downloadedBytes :=
      hsegs ▸ hwf.progress
    clear hsegs
    induction shared generalizing segs with
    | nil => exact ⟨rfl, hprogress⟩
    | cons info shared ih =>
      have hinfo := hshared info List.mem_cons_self
      rw [List.foldl_cons]
      obtain ⟨hshape, hrest⟩ := ih (fun i hi ↦ hshared i (List.mem_cons_of_mem _ hi))
        (segs.modify info.1 fun s ↦
          if s.state = .active then { s with downloadedBytes := info.2 } else s) (by
            intro k seg hk
            rw [SortedMap.get?_modify] at hk
            split at hk
            · obtain ⟨s, hs, rfl⟩ := Option.map_eq_some_iff.mp hk
              split
              · exact hinfo
              · exact hprogress k s hs
            · exact hprogress k seg hk)
      refine ⟨hshape.trans (shape_modify fun s _ ↦ ?_), hrest⟩
      split <;> exact ⟨rfl, rfl⟩
  exact .touch hfold.1 rfl rfl hfold.2

/-- What the environment promises about an operation: workers report no negative progress,
and there is a segment index left to give out. -/
def LayoutOp.Admissible (l : Layout) (op : LayoutOp) : Prop :=
  l.nextIndex < i32Max ∧ match op with
    | .done _ downloadedBytes => 0 ≤ downloadedBytes
    | .syncDownloaded shared => ∀ info ∈ shared, 0 ≤ info.2
    | _ => True

private theorem change_assigned {l : Layout} (hwf : l.WF) (hnext : l.nextIndex < i32Max)
    {result : SegmentMap × Int × Option NextWork} (state : SegState)
    (h : result = (l.segments, l.nextIndex, none) ∨
      ∃ idx best point, l.segments.get? idx = some best ∧ best.state = .active ∧
        best.startByte + best.downloadedBytes < point ∧ point ≤ best.endByte ∧
        result = (splitSegment l.segments l.nextIndex idx point best.endByte state,
          wrapI32 (l.nextIndex + 1), some (splitWork l.nextIndex idx point best.endByte))) :
    LayoutChange l (l.assigned result) := by
  rcases h with rfl | ⟨idx, best, point, hget, -, hlo, hhi, rfl⟩
  · exact change_refl hwf
  · exact change_split hwf hnext state hget hlo hhi

/-- Every operation takes at most two changes. -/
theorem Layout.step_changes {l : Layout} (hwf : l.WF) {op : LayoutOp}
    (hop : op.Admissible l) : ∃ mid, LayoutChange l mid ∧ LayoutChange mid (l.step op) := by
  obtain ⟨hnext, hop⟩ := hop
  cases op with
  | findNextWork minSplit cost =>
    refine ⟨l, change_refl hwf, ?_⟩
    rcases findNextWork_cases hwf.keyed l.nextIndex minSplit cost with h | ⟨seg, hget, -, h⟩ | h
    · exact change_assigned hwf hnext .active (Or.inl h)
    · dsimp only [Layout.step]
      rw [h]
      exact change_setState hwf seg.index .active
    · exact change_assigned hwf hnext .active (Or.inr h)
  | findNextPendingOnly =>
    refine ⟨l, change_refl hwf, ?_⟩
    dsimp only [Layout.step]
    unfold findNextPendingOnly
    split
    · exact change_refl hwf
    · next seg _ => exact change_setState hwf seg.index .active
  | trySplitLargest minSplit cost =>
    exact ⟨l, change_refl hwf,
      change_assigned hwf hnext .active (splitBest_cases hwf.keyed _ _ _ _)⟩
  | tryProactiveSplit minSplit cost =>
    refine ⟨l, change_refl hwf, change_assigned hwf hnext .pending ?_⟩
    unfold tryProactiveSplit
    split
    · exact Or.inl rfl
    · exact splitBest_cases hwf.keyed _ _ _ .pending
  | done segIndex downloadedBytes =>
    exact ⟨l, change_refl hwf, change_done hwf hnext segIndex hop⟩
  | trueSizeLarger segIndex reportedTotal preallocated =>
    dsimp only [Layout.step]
    unfold handleTrueSizeLarger
    split
    · next h =>
      have hgrow := change_expand hwf hnext h.1
      exact ⟨_, hgrow, change_setState (hgrow.wf hwf) segIndex .pending⟩
    · exact ⟨l, change_refl hwf, change_setState hwf segIndex .pending⟩
  | absorb openEndedStreaming persisted =>
    exact ⟨l, change_refl hwf, change_absorb hwf openEndedStreaming persisted⟩
  | failed segIndex => exact ⟨l, change_refl hwf, change_setState hwf segIndex .pending⟩
  | preempted segIndex =>
    exact ⟨l, change_refl hwf, change_modify hwf segIndex (fun _ ↦ ⟨rfl, rfl⟩)
      fun s hs ↦ hwf.progress segIndex s hs⟩
  | syncDownloaded shared => exact ⟨l, change_refl hwf, change_sync hwf hop⟩

/-- A step keeps a layout well-formed. -/
theorem Layout.wf_step (l : Layout) (op : LayoutOp) (hwf : l.WF) (hop : op.Admissible l) :
    (l.step op).WF := by
  obtain ⟨mid, h₁, h₂⟩ := Layout.step_changes hwf hop
  exact h₂.wf (h₁.wf hwf)

/-- A step keeps every start in place. -/
theorem Layout.startsKept_step (l : Layout) (op : LayoutOp) (hwf : l.WF)
    (hop : op.Admissible l) : StartsKept l (l.step op) := by
  obtain ⟨mid, h₁, h₂⟩ := Layout.step_changes hwf hop
  exact h₁.startsKept.trans h₂.startsKept

/-! ## Runs -/

/-- Layouts a download starts from: uniform segments, or stored rows with no empty range and
no negative progress that `validateCoverage` accepts. -/
inductive Layout.Initial : Layout → Prop
  /-- Uniform segments. -/
  | fresh (count totalBytes : Int) (count_pos : 1 ≤ count) (count_le : count ≤ totalBytes) :
      Initial (Layout.fresh count totalBytes)
  /-- Stored rows. -/
  | restored (rows : List SegmentRow) (totalBytes : Int)
      (accepted : validateCoverage (restoreSegments rows).1 totalBytes = .ok ())
      (nonempty : ∀ row ∈ rows, row.startByte ≤ row.endByte)
      (progress : ∀ row ∈ rows, 0 ≤ row.downloadedBytes)
      (index : ∀ row ∈ rows, row.index < i32Max) :
      Initial (Layout.restored rows totalBytes)

/-- Initial layouts are well-formed. -/
theorem Layout.Initial.wf {l : Layout} (h : l.Initial) : l.WF := by
  cases h with
  | fresh count totalBytes hpos hle =>
    have htiles := tiles_buildFreshSegments hpos hle
    refine ⟨fun k seg hk ↦ ?_, htiles, by show 0 < totalBytes; omega, fun k seg hk ↦ ?_,
      by show 0 ≤ count; omega, fun k seg hk ↦ ?_⟩
    · obtain ⟨-, _, _, rfl⟩ := get?_buildFreshSegments hk
      rfl
    · exact (get?_buildFreshSegments hk).1
    · obtain ⟨-, _, _, rfl⟩ := get?_buildFreshSegments hk
      exact le_refl (0 : Int)
  | restored rows totalBytes haccepted hne hprogress hindex =>
    obtain ⟨hnonneg, hspec⟩ := restoreSegments_spec hindex
    have htiles : Tiles (spans (restoreSegments rows).1) 0 totalBytes := by
      refine tiles_of_validateCoverage haccepted fun s hs ↦ ?_
      obtain ⟨k, hk⟩ := (SortedMap.mem_values_iff _).mp hs
      obtain ⟨-, row, hrow, -, rfl⟩ := hspec k s hk
      exact hne row hrow
    refine ⟨fun k seg hk ↦ ?_, htiles, ?_, fun k seg hk ↦ (hspec k seg hk).1, hnonneg,
      fun k seg hk ↦ ?_⟩
    · obtain ⟨-, row, -, rfl, rfl⟩ := hspec k seg hk
      rfl
    · -- An accepted map has a segment, which is not empty.
      show 0 < totalBytes
      have hsome : (restoreSegments rows).1.values ≠ [] := by
        intro hnil
        unfold validateCoverage sortedByStart at haccepted
        rw [hnil] at haccepted
        exact absurd haccepted (by simp)
      obtain ⟨s, hs⟩ := List.exists_mem_of_ne_nil _ hsome
      have hmem : s.span ∈ spans (restoreSegments rows).1 := List.mem_map_of_mem hs
      have hspan : s.span.lo ≤ s.span.hi := htiles.nonempty _ hmem
      have := htiles.bounds hmem
      omega
    · obtain ⟨-, row, hrow, -, rfl⟩ := hspec k seg hk
      exact hprogress row hrow

/-- After every run from an initial layout the segments are non-empty ranges that partition the
planned file, the next index is above every index, `validateCoverage` accepts the map, and no
index was ever used for two starts. -/
theorem layout_run_tiles (l : Layout) (hinit : l.Initial) (ops : List LayoutOp)
    (hops : EveryStep Layout.step (fun l op ↦ op.Admissible l) l ops) :
    let final := run Layout.step l ops
    Tiles (spans final.segments) 0 final.effectiveTotalBytes ∧
      (∀ k seg, final.segments.get? k = some seg → seg.index = k ∧ k < final.nextIndex) ∧
      validateCoverage final.segments final.effectiveTotalBytes = .ok () ∧
      ∀ m n k seg seg', (run Layout.step l (ops.take m)).segments.get? k = some seg →
        (run Layout.step l (ops.take n)).segments.get? k = some seg' →
        seg.startByte = seg'.startByte := by
  have hwf : (run Layout.step l ops).WF := run_invariant Layout.wf_step hinit.wf hops
  refine ⟨hwf.tiles, fun k seg hk ↦ ⟨hwf.keyed k seg hk, hwf.below k seg hk⟩,
    validateCoverage_of_tiles hwf.tiles hwf.positive, ?_⟩
  have hordered : ∀ m n k seg seg', m ≤ n →
      (run Layout.step l (ops.take m)).segments.get? k = some seg →
      (run Layout.step l (ops.take n)).segments.get? k = some seg' →
      seg.startByte = seg'.startByte := by
    intro m n k seg seg' hmn hm hn
    have hkept := run_related_take StartsKept.refl StartsKept.trans Layout.wf_step
      Layout.startsKept_step hinit.wf hops hmn
    have hwfm : (run Layout.step l (ops.take m)).WF :=
      run_invariant Layout.wf_step hinit.wf (hops.take m)
    obtain ⟨seg₀, hseg₀, heq⟩ := hkept.start k seg' (hwfm.below k seg hm) hn
    rw [hm] at hseg₀
    exact Option.some.inj hseg₀ ▸ heq
  intro m n k seg seg' hm hn
  rcases le_total m n with h | h
  · exact hordered m n k seg seg' h hm hn
  · exact (hordered n m k seg' seg h hn hm).symm

/-- A run with an assignment, a shortfall, growth and an absorption. -/
theorem layout_run_tiles_shortfall :
    let ops : List LayoutOp := [.findNextPendingOnly, .syncDownloaded [(0, 3)], .done 0 3,
      .trueSizeLarger 1 20 true, .findNextPendingOnly, .absorb (some 1) true]
    validateCoverage (run Layout.step (Layout.fresh 2 10) ops).segments 20 = .ok () :=
  (layout_run_tiles (Layout.fresh 2 10) (.fresh 2 10 (by decide) (by decide))
    [.findNextPendingOnly, .syncDownloaded [(0, 3)], .done 0 3, .trueSizeLarger 1 20 true,
      .findNextPendingOnly, .absorb (some 1) true]
    ⟨⟨by decide, trivial⟩, ⟨by decide, by decide⟩, ⟨by decide, by decide⟩, ⟨by decide, trivial⟩,
      ⟨by decide, trivial⟩, ⟨by decide, trivial⟩, trivial⟩).2.2.1

/-- Accepted rows that leave the invariant: an empty range beside a full one, negative progress
that puts a split before the start of its segment, and an index with no successor. -/
theorem layout_run_tiles_fails_on_stored_rows :
    (validateCoverage (Layout.restored [⟨0, 0, -1, 0⟩, ⟨1, 0, 0, 0⟩] 1).segments 1 = .ok () ∧
      ¬ Tiles (spans (Layout.restored [⟨0, 0, -1, 0⟩, ⟨1, 0, 0, 0⟩] 1).segments) 0 1) ∧
    (validateCoverage (Layout.restored [⟨0, 0, 131071, -1000000⟩] 131072).segments 131072 =
        .ok () ∧
      validateCoverage (run Layout.step (Layout.restored [⟨0, 0, 131071, -1000000⟩] 131072)
        [.findNextPendingOnly, .trySplitLargest 65536 ⟨0.0, none⟩]).segments 131072 ≠ .ok ()) ∧
    (validateCoverage (Layout.restored [⟨2147483647, 0, 0, 0⟩] 1).segments 1 = .ok () ∧
      (Layout.restored [⟨2147483647, 0, 0, 0⟩] 1).nextIndex < 2147483647) := by
  refine ⟨⟨by decide, fun h ↦ ?_⟩, ⟨by decide, by decide⟩, by decide, by decide⟩
  exact absurd (h.nonempty ⟨0, -1⟩ (by decide)) (by decide)

end Engine
