import FluxDown.Base.SortedMap
import FluxDown.Base.Tiling

/-!
# Segment map

Library `Engine`. The coordinator's authoritative segment map: an ordered map from segment
index to the byte range `[start, end]` it covers, the bytes downloaded in it and its state.
Fresh maps divide the file uniformly, resumed maps come from stored rows, and
`validateCoverage` accepts a map exactly when its ranges, listed by start, follow one another
over the whole file. Byte positions are mathematical integers: every value the code computes
on an accepted map lies in the range of the total, an `i64`. Segment indices are `i32` and
wrap.
-/

namespace Engine

open Base

/-- Life cycle of a segment (`src/native/engine/src/segment_coordinator.rs:1204–1211`). -/
inductive SegState where
  /-- No worker is downloading the segment. -/
  | pending
  /-- A worker is downloading the segment. -/
  | active
  /-- The segment is downloaded. -/
  | completed
deriving DecidableEq, Repr

/-- One entry of the segment map (`segment_coordinator.rs:1214–1224`). -/
structure LiveSegment where
  /-- Segment index, also its key. -/
  index : Int
  /-- First byte of the range. -/
  startByte : Int
  /-- Last byte of the range. -/
  endByte : Int
  /-- Bytes downloaded, relative to `startByte`. -/
  downloadedBytes : Int
  /-- Life cycle state. -/
  state : SegState
  /-- Measured rate of the connection holding the segment, bytes per second. -/
  rateBps : Option Float

namespace LiveSegment

/-- Size of the range in bytes (`segment_coordinator.rs:1228–1230`). -/
def size (s : LiveSegment) : Int := max (s.endByte - s.startByte + 1) 0

/-- Bytes left to download (`segment_coordinator.rs:1233–1235`). -/
def remaining (s : LiveSegment) : Int := max (s.size - s.downloadedBytes) 0

/-- The byte range as an interval. -/
def span (s : LiveSegment) : Span := ⟨s.startByte, s.endByte⟩

end LiveSegment

/-- The segment map, keyed by index. -/
abbrev SegmentMap := SortedMap Int LiveSegment

/-- A stored segment row. -/
structure SegmentRow where
  /-- Segment index. -/
  index : Int
  /-- First byte of the range. -/
  startByte : Int
  /-- Last byte of the range. -/
  endByte : Int
  /-- Bytes recorded as downloaded. -/
  downloadedBytes : Int
deriving DecidableEq, Repr

/-- The largest `i32`. -/
def i32Max : Int := 2 ^ 31 - 1

/-- Two's complement wrap to `i32`. -/
def wrapI32 (n : Int) : Int := n.bmod (2 ^ 32)

/-- A number of the type is itself. -/
theorem wrapI32_of_range {n : Int} (h₁ : -(2 ^ 31) ≤ n) (h₂ : n ≤ i32Max) : wrapI32 n = n := by
  unfold wrapI32 i32Max at *
  rw [Int.bmod_eq_of_le] <;> omega

/-! ## Fresh and resumed maps -/

/-- Start and end of the `i`-th of `count` uniform segments. -/
def freshRange (count totalBytes i : Int) : Int × Int :=
  let chunk := totalBytes.tdiv count
  (i * chunk, if i = count - 1 then totalBytes - 1 else (i + 1) * chunk - 1)

/-- A segment nobody has started. -/
def pendingSegment (index startByte endByte : Int) : LiveSegment where
  index := index
  startByte := startByte
  endByte := endByte
  downloadedBytes := 0
  state := .pending
  rateBps := none

/-- Uniform segments over `[0, totalBytes - 1]`, as the map and as rows to store
(`segment_coordinator.rs:4397–4425`). -/
def buildFreshSegments (count totalBytes : Int) : SegmentMap × List (Int × Int × Int) :=
  let indices := (List.range count.toNat).map Int.ofNat
  (SortedMap.empty.insertAll (indices.map fun i ↦
      (i, pendingSegment i (freshRange count totalBytes i).1 (freshRange count totalBytes i).2)),
    indices.map fun i ↦ (i, freshRange count totalBytes i))

/-- A restored row is complete when its recorded progress reaches its length
(`segment_coordinator.rs:1705–1719`). -/
def restoreSegment (row : SegmentRow) : LiveSegment where
  index := row.index
  startByte := row.startByte
  endByte := row.endByte
  downloadedBytes := row.downloadedBytes
  state := if row.downloadedBytes ≥ row.endByte - row.startByte + 1 then .completed else .pending
  rateBps := none

/-- The map and the next index restored from stored rows
(`segment_coordinator.rs:1700–1724`). -/
def restoreSegments (rows : List SegmentRow) : SegmentMap × Int :=
  rows.foldl (fun acc row ↦
    (acc.1.insert row.index (restoreSegment row),
      if row.index ≥ acc.2 then wrapI32 (row.index + 1) else acc.2)) (SortedMap.empty, 0)

/-! ## Coverage validation -/

/-- The segments by start byte, equal starts in index order. -/
def sortedByStart (segments : SegmentMap) : List LiveSegment :=
  segments.values.insertionSort (fun a b ↦ a.startByte ≤ b.startByte)

/-- The first neighbours that do not meet. -/
def firstBreak : List LiveSegment → Option (LiveSegment × LiveSegment)
  | prev :: curr :: rest =>
    if curr.startByte ≠ prev.endByte + 1 then some (prev, curr) else firstBreak (curr :: rest)
  | _ => none

/-- Ranges cover `[0, totalBytes - 1]` with no gap and no overlap
(`segment_coordinator.rs:4432–4489`). -/
def validateCoverage (segments : SegmentMap) (totalBytes : Int) : Except String Unit :=
  match sortedByStart segments with
  | [] => .error "no segments"
  | first :: rest =>
    let last := (first :: rest).getLast (List.cons_ne_nil _ _)
    if first.startByte ≠ 0 then
      .error s!"first segment starts at {first.startByte} instead of 0"
    else if last.endByte ≠ totalBytes - 1 then
      .error s!"last segment ends at {last.endByte} instead of {totalBytes - 1}"
    else match firstBreak (first :: rest) with
      | some (prev, curr) => .error (s!"gap or overlap between segment {prev.index} " ++
          s!"(end={prev.endByte}) and segment {curr.index} (start={curr.startByte})")
      | none =>
        let totalCoverage := (segments.values.map LiveSegment.size).sum
        if totalCoverage ≠ totalBytes then
          .error s!"total coverage {totalCoverage} != total_bytes {totalBytes}"
        else .ok ()

/-- The byte ranges of a map. -/
def spans (segments : SegmentMap) : List Span := segments.values.map LiveSegment.span

private theorem perm_sortedByStart (segments : SegmentMap) :
    (sortedByStart segments).Perm segments.values :=
  List.perm_insertionSort _ _

private theorem pairwise_sortedByStart (segments : SegmentMap) :
    ((sortedByStart segments).map LiveSegment.span).Pairwise (fun s t ↦ s.lo ≤ t.lo) := by
  have : Std.Total (fun a b : LiveSegment ↦ a.startByte ≤ b.startByte) :=
    ⟨fun a b ↦ le_total a.startByte b.startByte⟩
  have : IsTrans LiveSegment (fun a b ↦ a.startByte ≤ b.startByte) := ⟨fun _ _ _ ↦ le_trans⟩
  exact List.pairwise_map.mpr (List.pairwise_insertionSort _ _)

private theorem chain_of_firstBreak : ∀ {first : LiveSegment} {rest : List LiveSegment},
    firstBreak (first :: rest) = none → (∀ s ∈ first :: rest, s.span.Nonempty) →
      Chain first.startByte ((first :: rest).map LiveSegment.span)
        (((first :: rest).getLast (List.cons_ne_nil _ _)).endByte + 1)
  | first, [], _, hne => ⟨rfl, hne first List.mem_cons_self, rfl⟩
  | first, curr :: rest, hb, hne => by
    rw [firstBreak] at hb
    split at hb
    · exact absurd hb (by simp)
    · next h =>
      have h : curr.startByte = first.endByte + 1 := not_not.mp h
      have hrest := chain_of_firstBreak hb fun s hs ↦ hne s (List.mem_cons_of_mem _ hs)
      rw [List.getLast_cons (List.cons_ne_nil _ _)]
      exact ⟨rfl, hne first List.mem_cons_self, h ▸ hrest⟩

private theorem firstBreak_of_chain : ∀ {first : LiveSegment} {rest : List LiveSegment}
    {a b : Int}, Chain a ((first :: rest).map LiveSegment.span) b →
      firstBreak (first :: rest) = none ∧
        ((first :: rest).getLast (List.cons_ne_nil _ _)).endByte + 1 = b
  | first, [], _, _, ⟨_, _, h⟩ => ⟨rfl, h⟩
  | first, curr :: rest, a, b, ⟨_, _, h⟩ => by
    have hcurr : curr.startByte = first.endByte + 1 := h.1
    rw [firstBreak, if_neg (not_not.mpr hcurr), List.getLast_cons (List.cons_ne_nil _ _)]
    exact firstBreak_of_chain h

/-- Accepted maps without an empty range tile the file. -/
theorem tiles_of_validateCoverage {segments : SegmentMap} {totalBytes : Int}
    (h : validateCoverage segments totalBytes = .ok ())
    (hne : ∀ s ∈ segments.values, s.startByte ≤ s.endByte) :
    Tiles (spans segments) 0 totalBytes := by
  have hperm := perm_sortedByStart segments
  unfold validateCoverage at h
  split at h
  · exact absurd h (by simp)
  · next first rest heq =>
    rw [heq] at hperm
    dsimp only at h
    split at h
    · exact absurd h (by simp)
    next hfirst =>
    split at h
    · exact absurd h (by simp)
    next hlast =>
    split at h
    · exact absurd h (by simp)
    next hbreak =>
    have hchain := chain_of_firstBreak hbreak fun s hs ↦ hne s (hperm.mem_iff.mp hs)
    rw [not_not.mp hfirst, not_not.mp hlast, Int.sub_add_cancel] at hchain
    exact hchain.tiles.perm (hperm.map _)

/-- A tiling of a non-empty file is accepted. -/
theorem validateCoverage_of_tiles {segments : SegmentMap} {totalBytes : Int}
    (h : Tiles (spans segments) 0 totalBytes) (hpos : 0 < totalBytes) :
    validateCoverage segments totalBytes = .ok () := by
  have hperm := perm_sortedByStart segments
  have hchain := (h.perm (hperm.map _).symm).chain_of_sorted hpos.le
    (pairwise_sortedByStart segments)
  have hsum : (segments.values.map LiveSegment.size).sum = totalBytes := by
    have := h.sum_length hpos.le
    rwa [spans, List.map_map, Int.sub_zero] at this
  unfold validateCoverage
  split
  · next heq =>
    rw [heq] at hchain
    exact absurd hchain (ne_of_lt hpos)
  · next first rest heq =>
    rw [heq] at hchain
    obtain ⟨hbreak, hlast⟩ := firstBreak_of_chain hchain
    have hfirst : first.startByte = 0 := hchain.1
    dsimp only
    rw [if_neg (not_not.mpr hfirst), if_neg (by omega), hbreak]
    dsimp only
    rw [if_neg (not_not.mpr hsum)]

/-! ## Fresh maps tile the file -/

private def freshSpan (count totalBytes : Int) (i : Nat) : Span :=
  ⟨(freshRange count totalBytes i).1, (freshRange count totalBytes i).2⟩

private theorem fresh_chain {count totalBytes : Int} (hcount : 1 ≤ count)
    (htotal : count ≤ totalBytes) : ∀ n : Nat, (n : Int) < count →
      Chain 0 ((List.range n).map (freshSpan count totalBytes))
        (n * totalBytes.tdiv count)
  | 0, _ => by simp [Chain]
  | n + 1, hn => by
    have hchunk : 1 ≤ totalBytes.tdiv count := by
      rw [Int.tdiv_eq_ediv_of_nonneg (by omega)]
      exact (Int.le_ediv_iff_mul_le (by omega)).mpr (by omega)
    have hstep : ((n + 1 : Nat) : Int) * totalBytes.tdiv count =
        n * totalBytes.tdiv count + totalBytes.tdiv count := by push_cast; ring
    rw [List.range_succ, List.map_append]
    refine (fresh_chain hcount htotal n (by omega)).append ⟨rfl, ?_, ?_⟩
    · show (n : Int) * _ ≤ (freshRange count totalBytes n).2
      simp only [freshRange, if_neg (show ¬ (n : Int) = count - 1 by omega)]
      rw [show ((n : Int) + 1) * totalBytes.tdiv count =
        ((n + 1 : Nat) : Int) * totalBytes.tdiv count by push_cast; ring, hstep]
      omega
    · show (freshRange count totalBytes n).2 + 1 = _
      simp only [freshRange, if_neg (show ¬ (n : Int) = count - 1 by omega)]
      push_cast
      omega

/-- Uniform segments tile the file. -/
theorem tiles_buildFreshSegments {count totalBytes : Int} (hcount : 1 ≤ count)
    (htotal : count ≤ totalBytes) :
    Tiles (spans (buildFreshSegments count totalBytes).1) 0 totalBytes := by
  obtain ⟨n, hn⟩ : ∃ n : Nat, count = n + 1 := ⟨(count - 1).toNat, by omega⟩
  have hchunk : n * totalBytes.tdiv count ≤ totalBytes - 1 := by
    rw [Int.tdiv_eq_ediv_of_nonneg (by omega)]
    have h₁ := Int.ediv_mul_le totalBytes (show count ≠ 0 by omega)
    have h₂ : 1 ≤ totalBytes / count := (Int.le_ediv_iff_mul_le (by omega)).mpr (by omega)
    rw [hn, Int.mul_add, Int.mul_one, Int.mul_comm] at h₁
    rw [hn] at h₂ ⊢
    omega
  -- The last segment takes the remainder of the division.
  have hchain : Chain 0 ((List.range (n + 1)).map (freshSpan count totalBytes)) totalBytes := by
    rw [List.range_succ, List.map_append]
    refine (fresh_chain hcount htotal n (by omega)).append ⟨rfl, ?_, ?_⟩
    · show (n : Int) * _ ≤ (freshRange count totalBytes n).2
      simp only [freshRange, if_pos (show (n : Int) = count - 1 by omega)]
      exact hchunk
    · show (freshRange count totalBytes n).2 + 1 = _
      simp only [freshRange, if_pos (show (n : Int) = count - 1 by omega)]
      omega
  refine hchain.tiles.perm (List.Perm.symm ?_)
  have hnodup : (((List.range count.toNat).map Int.ofNat).map fun i ↦
      (i, pendingSegment i (freshRange count totalBytes i).1
        (freshRange count totalBytes i).2)).map Prod.fst |>.Nodup := by
    rw [List.map_map, List.map_map]
    exact List.nodup_range.map fun a b h ↦ Int.ofNat.inj h
  have hperm := (SortedMap.entries_insertAll_perm hnodup).map fun e ↦ e.2.span
  have hlist : (((List.range count.toNat).map Int.ofNat).map fun i ↦
      (i, pendingSegment i (freshRange count totalBytes i).1
        (freshRange count totalBytes i).2)).map (fun e ↦ e.2.span) =
      (List.range (n + 1)).map (freshSpan count totalBytes) := by
    rw [List.map_map, List.map_map, show count.toNat = n + 1 by omega]
    rfl
  rw [hlist] at hperm
  rwa [spans, SortedMap.values, List.map_map]

/-! ## Shape of fresh and restored maps -/

/-- Every fresh segment is untouched and its index lies below `count`. -/
theorem get?_buildFreshSegments {count totalBytes k : Int} {seg : LiveSegment}
    (h : (buildFreshSegments count totalBytes).1.get? k = some seg) :
    k < count ∧ ∃ start stop, seg = pendingSegment k start stop := by
  have hmem : (k, seg) ∈ (buildFreshSegments count totalBytes).1.entries :=
    (SortedMap.get?_eq_some_iff _).mp h
  rw [buildFreshSegments, ← SortedMap.get?_eq_some_iff, SortedMap.get?_insertAll,
    SortedMap.get?_empty, Option.or_none, Option.map_eq_some_iff] at hmem
  obtain ⟨e, he, hseg⟩ := hmem
  have hk : e.1 = k := by simpa using List.find?_some he
  have he := List.mem_reverse.mp (List.mem_of_find?_eq_some he)
  simp only [List.mem_map, List.mem_range] at he
  obtain ⟨i, ⟨n, hn, rfl⟩, rfl⟩ := he
  have hk : Int.ofNat n = k := hk
  subst hk
  exact ⟨by have := Int.ofNat_eq_natCast n; omega, _, _, hseg.symm⟩

/-- A restored segment comes from a row with its index. -/
theorem restoreSegments_spec {rows : List SegmentRow} (hrows : ∀ row ∈ rows, row.index < i32Max) :
    0 ≤ (restoreSegments rows).2 ∧ ∀ k seg, (restoreSegments rows).1.get? k = some seg →
      k < (restoreSegments rows).2 ∧ ∃ row ∈ rows, row.index = k ∧ seg = restoreSegment row := by
  unfold restoreSegments
  -- The claim for the rows folded so far, the last row first.
  induction rows using List.reverseRecOn with
  | nil => simp
  | append_singleton rows row ih =>
    obtain ⟨hnonneg, hseg⟩ := ih fun r hr ↦ hrows r (List.mem_append_left _ hr)
    have hrow := hrows row (List.mem_append_right _ List.mem_cons_self)
    rw [List.foldl_append, List.foldl_cons, List.foldl_nil]
    generalize rows.foldl _ _ = acc at hnonneg hseg ⊢
    dsimp only
    have hnext : acc.2 ≤ (if row.index ≥ acc.2 then wrapI32 (row.index + 1) else acc.2) ∧
        row.index < (if row.index ≥ acc.2 then wrapI32 (row.index + 1) else acc.2) := by
      split
      · rw [wrapI32_of_range (by omega) (by omega)]
        omega
      · omega
    refine ⟨le_trans hnonneg hnext.1, fun k seg h ↦ ?_⟩
    rw [SortedMap.get?_insert] at h
    split at h
    · next hk =>
      exact ⟨hk ▸ hnext.2, row, List.mem_append_right _ List.mem_cons_self, hk.symm,
        (Option.some.inj h).symm⟩
    · obtain ⟨hlt, r, hr, hk, hs⟩ := hseg k seg h
      exact ⟨lt_of_lt_of_le hlt hnext.1, r, List.mem_append_left _ hr, hk, hs⟩

end Engine
