import FluxDown.Engine.PartFile

/-!
# Reading and writing the segments of a file

Library `Engine`. A file that was not selected is read and written through its segments. A read
copies the parts that they cover and fills the holes with zeros; a write stores the parts they
cover and drops the rest. Segments that lie in the blob keep every access there, whatever their
offsets, as long as no offset and length leave 64 bits; and a read of segments in order gives the
window of what they contain.
-/

namespace Engine.PartFile

open Base

/-! ## The loops -/

/-- Exactly the bytes asked for, or an error, with the text it has on Unix. `src/native/engine/src/bt_partfile.rs:637–657`. -/
def preadFile (file : List UInt8) (pos len : Nat) : Except Fault (List UInt8) := do
  ensure (len = 0 ∨ pos + len ≤ file.length) shortRead
  .ok ((file.drop pos).take len)

/-- Write all bytes; a file that is too short grows. `bt_partfile.rs:659–679`. -/
def pwriteFile (file : List UInt8) (pos : Nat) (data : List UInt8) : List UInt8 :=
  overwrite (file ++ List.replicate (pos - file.length) 0) pos data

/-- A read on its way: the position, the buffer and whether a hole was met. `touched` is the
history of the parts of the sidecar that were read. -/
structure Reading where
  cur : Nat
  buf : List UInt8
  hadGap : Bool
  touched : List (Nat × Nat)
deriving DecidableEq, Repr

namespace Reading

/-- Fill the buffer with zeros up to a position. `bt_partfile.rs:703–712`, `729–733`. -/
def zeroTo (r : Reading) (offset stop : Nat) : Reading :=
  { r with
    cur := stop
    buf := overwrite r.buf (r.cur - offset) (List.replicate (stop - r.cur) 0)
    hadGap := true }

/-- Fill the buffer from a segment up to a position. `bt_partfile.rs:717–724`. -/
def takeTo (r : Reading) (blob : List UInt8) (offset : Nat) (seg : SegSpec) (stop : Nat) :
    Except Fault Reading :=
  if stop ≤ r.cur then .ok r
  else do
    let pos ← plus seg.blobPos (r.cur - seg.offset)
    let data ← preadFile blob pos (stop - r.cur)
    .ok { r with
      cur := stop
      buf := overwrite r.buf (r.cur - offset) data
      touched := r.touched ++ [(pos, pos + (stop - r.cur))] }

end Reading

/-- Go through the segments. `bt_partfile.rs:695–728`. -/
def readLoop (blob : List UInt8) (offset stop : Nat) :
    List SegSpec → Reading → Except Fault Reading
  | [], r => .ok r
  | seg :: rest, r => do
    let segEnd ← plus seg.offset seg.len
    if segEnd ≤ r.cur then readLoop blob offset stop rest r
    else if stop ≤ seg.offset then .ok r
    else do
      let r := if r.cur < seg.offset then r.zeroTo offset (min seg.offset stop) else r
      if stop ≤ r.cur then .ok r
      else do
        let r ← r.takeTo blob offset seg (min segEnd stop)
        if stop ≤ r.cur then .ok r else readLoop blob offset stop rest r

/-- Read `[offset, offset + buf.len())` of a file from its segments. `bt_partfile.rs:686–735`. -/
def readPartsRanges (blob : List UInt8) (segments : List SegSpec) (offset : Nat)
    (buf : List UInt8) : Except Fault Reading := do
  let stop ← plus offset buf.length
  let r ← readLoop blob offset stop segments
    { cur := offset, buf, hadGap := false, touched := [] }
  .ok (if r.cur < stop then r.zeroTo offset stop else r)

/-- A write on its way: the sidecar and the number of bytes stored. `touched` is the history of
the parts of the sidecar that were written. -/
structure Writing where
  blob : List UInt8
  covered : Nat
  touched : List (Nat × Nat)
deriving DecidableEq, Repr

/-- Go through the segments. `bt_partfile.rs:747–760`. -/
def writeLoop (offset stop : Nat) (buf : List UInt8) :
    List SegSpec → Writing → Except Fault Writing
  | [], w => .ok w
  | seg :: rest, w => do
    let segEnd ← plus seg.offset seg.len
    let first := max seg.offset offset
    let last := min segEnd stop
    if last ≤ first then writeLoop offset stop buf rest w
    else do
      let pos ← plus seg.blobPos (first - seg.offset)
      let data := (buf.drop (first - offset)).take (last - first)
      let covered ← plus w.covered (last - first)
      writeLoop offset stop buf rest
        { blob := pwriteFile w.blob pos data, covered,
          touched := w.touched ++ [(pos, pos + (last - first))] }

/-- Write `[offset, offset + buf.len())` of a file to its segments, and whether bytes were dropped.
`bt_partfile.rs:739–762`. -/
def writePartsRanges (blob : List UInt8) (segments : List SegSpec) (offset : Nat)
    (buf : List UInt8) : Except Fault (Writing × Bool) := do
  let stop ← plus offset buf.length
  let w ← writeLoop offset stop buf segments { blob, covered := 0, touched := [] }
  .ok (w, decide (w.covered < buf.length))

/-! ## Accesses stay in the blob -/

/-- A part of the sidecar between two positions. -/
def Inside (first last : Nat) (r : Nat × Nat) : Prop := first ≤ r.1 ∧ r.2 ≤ last

instance (first last : Nat) (r : Nat × Nat) : Decidable (Inside first last r) :=
  inferInstanceAs (Decidable (_ ∧ _))

/-- The bytes of the segment lie between two positions of the sidecar. -/
def SegSpec.Stored (first last : Nat) (s : SegSpec) : Prop :=
  first ≤ s.blobPos ∧ s.blobPos + s.len ≤ last

/-- The end of the segment in its file is a number of 64 bits. -/
def SegSpec.Ends (s : SegSpec) : Prop := s.offset + s.len ≤ maxU64

instance (s : SegSpec) : Decidable s.Ends := inferInstanceAs (Decidable (_ ≤ _))

/-- The bytes of the segment between two positions of its file. -/
def SegSpec.overlap (offset stop : Nat) (s : SegSpec) : Nat :=
  min (s.offset + s.len) stop - max s.offset offset

section Safety

variable {blob buf : List UInt8} {first last offset stop : Nat} {segs : List SegSpec}

private theorem Reading.takeTo_inside (offset : Nat) {r : Reading} {seg : SegSpec}
    (hfile : last ≤ blob.length) (hlast : last ≤ maxU64) (hseg : seg.Stored first last)
    (hcur : seg.offset ≤ r.cur) (hstop : stop ≤ seg.offset + seg.len)
    (hr : ∀ t ∈ r.touched, Inside first last t) :
    ∃ r', r.takeTo blob offset seg stop = .ok r' ∧ ∀ t ∈ r'.touched, Inside first last t := by
  unfold SegSpec.Stored at hseg
  by_cases hdone : stop ≤ r.cur
  · exact ⟨r, if_pos hdone, hr⟩
  · have hpos : seg.blobPos + (r.cur - seg.offset) ≤ maxU64 := by omega
    have hread : stop - r.cur = 0 ∨
        seg.blobPos + (r.cur - seg.offset) + (stop - r.cur) ≤ blob.length := by omega
    refine ⟨_, by rw [Reading.takeTo, if_neg hdone, plus_of_le hpos, ok_bind, preadFile,
      ensure_of hread]; rfl, ?_⟩
    intro t ht
    rcases List.mem_append.mp ht with hold | hnew
    · exact hr t hold
    · rw [List.mem_singleton.mp hnew]
      exact ⟨by simp only; omega, by simp only; omega⟩

/-- The loop of a read ends, and reads only where the segments are stored. -/
theorem readLoop_inside (offset stop : Nat) (hfile : last ≤ blob.length) (hlast : last ≤ maxU64) :
    ∀ {segs : List SegSpec}, (∀ s ∈ segs, s.Ends ∧ s.Stored first last) → ∀ r : Reading,
      (∀ t ∈ r.touched, Inside first last t) →
        ∃ r', readLoop blob offset stop segs r = .ok r' ∧ ∀ t ∈ r'.touched, Inside first last t
  | [], _, r, hr => ⟨r, rfl, hr⟩
  | seg :: rest, hsegs, r, hr => by
    obtain ⟨hends, hstored⟩ := hsegs seg List.mem_cons_self
    have hrest : ∀ s ∈ rest, s.Ends ∧ s.Stored first last :=
      fun s hs ↦ hsegs s (List.mem_cons_of_mem _ hs)
    rw [readLoop, plus_of_le hends, ok_bind]
    by_cases hbefore : seg.offset + seg.len ≤ r.cur
    · rw [if_pos hbefore]
      exact readLoop_inside offset stop hfile hlast hrest r hr
    rw [if_neg hbefore]
    by_cases hafter : stop ≤ seg.offset
    · rw [if_pos hafter]
      exact ⟨r, rfl, hr⟩
    rw [if_neg hafter]
    -- the position once the hole in front of the segment is filled
    have hfilled : ∃ s : Reading, s = (if r.cur < seg.offset then
        r.zeroTo offset (min seg.offset stop) else r) ∧ seg.offset ≤ s.cur ∧
          ∀ t ∈ s.touched, Inside first last t := by
      refine ⟨_, rfl, ?_⟩
      by_cases hgap : r.cur < seg.offset
      · rw [if_pos hgap]
        exact ⟨by simp only [Reading.zeroTo]; omega, hr⟩
      · rw [if_neg hgap]
        exact ⟨by omega, hr⟩
    obtain ⟨s, hs, hcur, hs'⟩ := hfilled
    rw [← hs]
    by_cases hfull : stop ≤ s.cur
    · exact ⟨s, if_pos hfull, hs'⟩
    obtain ⟨r', htake, hr'⟩ := Reading.takeTo_inside offset hfile hlast hstored hcur
      (Nat.min_le_left _ stop) hs'
    rw [if_neg hfull, htake, ok_bind]
    by_cases hend : stop ≤ r'.cur
    · exact ⟨r', if_pos hend, hr'⟩
    · rw [if_neg hend]
      exact readLoop_inside offset stop hfile hlast hrest r' hr'

/-- The loop of a write ends when no count leaves 64 bits, writes only where the segments are
stored, and counts the bytes of the write that they cover, once for each segment. -/
theorem writeLoop_inside (hlast : last ≤ maxU64) (hstop : stop ≤ offset + buf.length) :
    ∀ {segs : List SegSpec}, (∀ s ∈ segs, s.Ends ∧ s.Stored first last) → ∀ w : Writing,
      last ≤ w.blob.length →
      w.covered + (segs.map (SegSpec.overlap offset stop)).sum ≤ maxU64 →
      (∀ t ∈ w.touched, Inside first last t) →
        ∃ w', writeLoop offset stop buf segs w = .ok w' ∧ w'.blob.length = w.blob.length ∧
          w'.blob.take first = w.blob.take first ∧ ∀ t ∈ w'.touched, Inside first last t
  | [], _, w, _, _, hw => ⟨w, rfl, rfl, rfl, hw⟩
  | seg :: rest, hsegs, w, hfile, hsum, hw => by
    obtain ⟨hends, hfirst, hstored⟩ := hsegs seg List.mem_cons_self
    have hrest : ∀ s ∈ rest, s.Ends ∧ s.Stored first last :=
      fun s hs ↦ hsegs s (List.mem_cons_of_mem _ hs)
    rw [List.map_cons, List.sum_cons, SegSpec.overlap] at hsum
    rw [writeLoop, plus_of_le hends, ok_bind]
    by_cases hempty : min (seg.offset + seg.len) stop ≤ max seg.offset offset
    · rw [if_pos hempty]
      exact writeLoop_inside hlast hstop hrest w hfile (by omega) hw
    rw [if_neg hempty]
    have hpos : seg.blobPos + (max seg.offset offset - seg.offset) ≤ maxU64 := by omega
    have hcovered : w.covered + (min (seg.offset + seg.len) stop - max seg.offset offset) ≤
        maxU64 := by omega
    rw [plus_of_le hpos, ok_bind, plus_of_le hcovered, ok_bind]
    generalize hdata : (buf.drop (max seg.offset offset - offset)).take
      (min (seg.offset + seg.len) stop - max seg.offset offset) = data
    have hlength : data.length = min (seg.offset + seg.len) stop - max seg.offset offset := by
      rw [← hdata, List.length_take, List.length_drop]
      omega
    have hroom : seg.blobPos + (max seg.offset offset - seg.offset) + data.length ≤
        w.blob.length := by omega
    have hwrite : pwriteFile w.blob (seg.blobPos + (max seg.offset offset - seg.offset)) data =
        overwrite w.blob (seg.blobPos + (max seg.offset offset - seg.offset)) data := by
      rw [pwriteFile, Nat.sub_eq_zero_of_le (by omega), List.replicate_zero, List.append_nil]
    obtain ⟨w', hloop, hsame, hfront, htouched⟩ := writeLoop_inside hlast hstop hrest
      { blob := pwriteFile w.blob (seg.blobPos + (max seg.offset offset - seg.offset)) data
        covered := w.covered + (min (seg.offset + seg.len) stop - max seg.offset offset)
        touched := w.touched ++ [(seg.blobPos + (max seg.offset offset - seg.offset),
          seg.blobPos + (max seg.offset offset - seg.offset) +
            (min (seg.offset + seg.len) stop - max seg.offset offset))] }
      (by rw [hwrite, length_overwrite hroom]; exact hfile) (by simp only; omega)
      (by
        intro t ht
        rcases List.mem_append.mp ht with hold | hnew
        · exact hw t hold
        · rw [List.mem_singleton.mp hnew]
          exact ⟨by simp only; omega, by simp only; omega⟩)
    refine ⟨w', hloop, ?_, ?_, htouched⟩
    · rw [hsame, hwrite, length_overwrite hroom]
    · rw [hfront, hwrite, take_overwrite_of_le (by omega) (by omega)]

/-- A write goes through every segment, so one that ends has met no end beyond 64 bits, and the
bytes it counted stay in 64 bits. -/
theorem writeLoop_ends : ∀ {segs : List SegSpec} {w w' : Writing},
    writeLoop offset stop buf segs w = .ok w' → w.covered ≤ maxU64 →
      (∀ s ∈ segs, s.Ends) ∧
        w.covered + (segs.map (SegSpec.overlap offset stop)).sum ≤ maxU64
  | [], _, _, _, hw => by simpa using hw
  | seg :: rest, w, w', h, hw => by
    rw [writeLoop, bind_eq_ok] at h
    obtain ⟨segEnd, hplus, h⟩ := h
    obtain ⟨hends, rfl⟩ := plus_eq_ok.mp hplus
    rw [List.map_cons, List.sum_cons, SegSpec.overlap]
    by_cases hempty : min (seg.offset + seg.len) stop ≤ max seg.offset offset
    · rw [if_pos hempty] at h
      obtain ⟨hrest, hsum⟩ := writeLoop_ends h hw
      exact ⟨List.forall_mem_cons.mpr ⟨hends, hrest⟩, by omega⟩
    · rw [if_neg hempty, bind_eq_ok] at h
      obtain ⟨pos, -, h⟩ := h
      obtain ⟨covered, hcovered, h⟩ := bind_eq_ok.mp h
      obtain ⟨hfits, rfl⟩ := plus_eq_ok.mp hcovered
      obtain ⟨hrest, hsum⟩ := writeLoop_ends h hfits
      exact ⟨List.forall_mem_cons.mpr ⟨hends, hrest⟩, by simp only at hsum; omega⟩

/-- A read ends, and reads only where the segments are stored. -/
theorem readPartsRanges_inside (hfile : last ≤ blob.length) (hlast : last ≤ maxU64)
    (hsegs : ∀ s ∈ segs, s.Ends ∧ s.Stored first last) (hstop : offset + buf.length ≤ maxU64) :
    ∃ r, readPartsRanges blob segs offset buf = .ok r ∧ ∀ t ∈ r.touched, Inside first last t := by
  obtain ⟨r, hloop, hr⟩ := readLoop_inside offset (offset + buf.length) hfile hlast
    hsegs { cur := offset, buf, hadGap := false, touched := [] } (by simp)
  refine ⟨_, by rw [readPartsRanges, plus_of_le hstop, ok_bind, hloop, ok_bind], ?_⟩
  by_cases hend : r.cur < offset + buf.length
  · rw [if_pos hend]
    exact hr
  · rw [if_neg hend]
    exact hr

/-- A write ends, writes only where the segments are stored, and keeps what is in front of them
and the length. -/
theorem writePartsRanges_inside (hfile : last ≤ blob.length) (hlast : last ≤ maxU64)
    (hsegs : ∀ s ∈ segs, s.Ends ∧ s.Stored first last) (hstop : offset + buf.length ≤ maxU64)
    (hsum : (segs.map (SegSpec.overlap offset (offset + buf.length))).sum ≤ maxU64) :
    ∃ w dropped, writePartsRanges blob segs offset buf = .ok (w, dropped) ∧
      w.blob.length = blob.length ∧ w.blob.take first = blob.take first ∧
        ∀ t ∈ w.touched, Inside first last t := by
  obtain ⟨w, hloop, hlength, hfront, htouched⟩ := writeLoop_inside hlast le_rfl hsegs
    { blob, covered := 0, touched := [] } hfile (by simpa using hsum) (by simp)
  exact ⟨w, _, by rw [writePartsRanges, plus_of_le hstop, ok_bind, hloop, ok_bind],
    hlength, hfront, htouched⟩

/-- A write that succeeds has every segment end inside its type. -/
theorem writePartsRanges_ends {out : Writing × Bool}
    (h : writePartsRanges blob segs offset buf = .ok out) :
    (∀ s ∈ segs, s.Ends) ∧
      (segs.map (SegSpec.overlap offset (offset + buf.length))).sum ≤ maxU64 := by
  rw [writePartsRanges, bind_eq_ok] at h
  obtain ⟨stop, hplus, h⟩ := h
  obtain ⟨-, rfl⟩ := plus_eq_ok.mp hplus
  obtain ⟨w, hloop, -⟩ := bind_eq_ok.mp h
  have hall := writeLoop_ends hloop (by simp)
  simpa using hall

end Safety

/-! ## What a read gives -/

/-- What the segments contain at a position of the file. -/
def contents (blob : List UInt8) : List SegSpec → Nat → Option UInt8
  | [], _ => none
  | seg :: rest, pos =>
    if seg.offset ≤ pos ∧ pos < seg.offset + seg.len then blob[seg.blobPos + (pos - seg.offset)]?
    else contents blob rest pos

/-- The segments are in order and none overlaps another. -/
def InOrder (segs : List SegSpec) : Prop :=
  segs.Pairwise fun a b ↦ a.offset + a.len ≤ b.offset

section Content

variable {blob buf : List UInt8} {content : Nat → Option UInt8} {offset stop : Nat}
  {segs : List SegSpec}

private theorem contents_of_before {pos : Nat} (h : ∀ s ∈ segs, pos < s.offset) :
    contents blob segs pos = none := by
  induction segs with
  | nil => rfl
  | cons seg rest ih =>
    rw [contents, if_neg fun hin ↦ by have := h seg List.mem_cons_self; omega]
    exact ih fun s hs ↦ h s (List.mem_cons_of_mem _ hs)

private theorem contents_cons_of_after {pos : Nat} {seg : SegSpec}
    (h : seg.offset + seg.len ≤ pos) :
    contents blob (seg :: segs) pos = contents blob segs pos := by
  rw [contents, if_neg (by omega)]

/-- The buffer is the window on the content up to the position that is reached. -/
structure Reading.Upto (content : Nat → Option UInt8) (offset stop : Nat) (r : Reading) :
    Prop where
  start : offset ≤ r.cur
  bound : r.cur ≤ stop
  length : r.buf.length = stop - offset
  read : r.buf.take (r.cur - offset) = window content 0 offset (r.cur - offset)
  gap : r.hadGap = true ↔ HasHole content offset (r.cur - offset)

namespace Reading

/-- The next part of the buffer is filled with what the content has there. -/
theorem Upto.extend {r r' : Reading} (hr : r.Upto content offset stop) (hcur : r.cur ≤ r'.cur)
    (hstop : r'.cur ≤ stop)
    (hbuf : r'.buf = overwrite r.buf (r.cur - offset) (window content 0 r.cur (r'.cur - r.cur)))
    (hgap : r'.hadGap = true ↔ r.hadGap = true ∨ HasHole content r.cur (r'.cur - r.cur)) :
    r'.Upto content offset stop := by
  obtain ⟨hstart, hbound, hlength, hread, hold⟩ := hr
  have hsplit : r'.cur - offset = (r.cur - offset) + (r'.cur - r.cur) := by omega
  have hfrom : offset + (r.cur - offset) = r.cur := by omega
  refine ⟨by omega, hstop, ?_, ?_, ?_⟩
  · rw [hbuf, length_overwrite (by rw [length_window]; omega), hlength]
  · rw [hsplit, window_add, hfrom, ← hread, hbuf]
    have htake := @take_overwrite _ r.buf (window content 0 r.cur (r'.cur - r.cur))
      (r.cur - offset) (by omega)
    rwa [length_window] at htake
  · rw [hgap, hold, hsplit, hasHole_add, hfrom]

private theorem Upto.zeroTo {r : Reading} {next : Nat} (hr : r.Upto content offset stop)
    (hcur : r.cur < next) (hnext : next ≤ stop)
    (hnone : ∀ pos, r.cur ≤ pos → pos < next → content pos = none) :
    (r.zeroTo offset next).Upto content offset stop := by
  have hholes : ∀ i < next - r.cur, content (r.cur + i) = none :=
    fun i hi ↦ hnone _ (by omega) (by omega)
  refine hr.extend (le_of_lt hcur) hnext ?_ ?_
  · rw [Reading.zeroTo, window_of_none hholes]
  · simp only [Reading.zeroTo, true_iff]
    exact .inr ⟨0, by omega, hholes 0 (by omega)⟩

private theorem Upto.takeTo {r r' : Reading} {seg : SegSpec} {next : Nat}
    (hr : r.Upto content offset stop) (hnext : next ≤ stop) (hseg : seg.offset ≤ r.cur)
    (hsome : ∀ pos, r.cur ≤ pos → pos < next →
      content pos = blob[seg.blobPos + (pos - seg.offset)]?)
    (h : r.takeTo blob offset seg next = .ok r') :
    r'.Upto content offset stop ∧ r'.cur = max r.cur next := by
  by_cases hdone : next ≤ r.cur
  · rw [Reading.takeTo, if_pos hdone] at h
    cases h
    exact ⟨hr, (Nat.max_eq_left hdone).symm⟩
  rw [Reading.takeTo, if_neg hdone, bind_eq_ok] at h
  obtain ⟨pos, hpos, h⟩ := h
  obtain ⟨data, hdata, h⟩ := bind_eq_ok.mp h
  obtain ⟨-, rfl⟩ := plus_eq_ok.mp hpos
  obtain ⟨_, hfits, hdata⟩ := bind_eq_ok.mp hdata
  rw [ensure_eq_ok] at hfits
  cases hdata
  cases h
  have hstore : ∀ i < next - r.cur,
      content (r.cur + i) = blob[seg.blobPos + (r.cur - seg.offset) + i]? := by
    intro i hi
    rw [hsome _ (by omega) (by omega)]
    congr 1
    omega
  have hroom : seg.blobPos + (r.cur - seg.offset) + (next - r.cur) ≤ blob.length := by omega
  refine ⟨hr.extend (by simp only; omega) hnext ?_ ?_, by simp only; omega⟩
  · simp only [window_of_store hroom hstore]
  · simp only [not_hasHole_of_store hroom hstore, or_false]

end Reading

/-- The loop of a read fills the buffer with the content; where it stops early, only holes are
left. The induction keeps that the segments to come hold the content from the position on. -/
theorem readLoop_upto : ∀ {segs : List SegSpec} {r r' : Reading},
    readLoop blob offset stop segs r = .ok r' → r.Upto content offset stop → InOrder segs →
      (∀ pos, r.cur ≤ pos → pos < stop → content pos = contents blob segs pos) →
        r'.Upto content offset stop ∧ ∀ pos, r'.cur ≤ pos → pos < stop → content pos = none
  | [], r, r', h, hr, _, hcontent => by
    cases h
    exact ⟨hr, hcontent⟩
  | seg :: rest, r, r', h, hr, hsegs, hcontent => by
    obtain ⟨hbefore, hrest⟩ := List.pairwise_cons.mp hsegs
    rw [readLoop, bind_eq_ok] at h
    obtain ⟨segEnd, hplus, h⟩ := h
    obtain ⟨-, rfl⟩ := plus_eq_ok.mp hplus
    by_cases hpast : seg.offset + seg.len ≤ r.cur
    · rw [if_pos hpast] at h
      apply readLoop_upto h hr hrest
      intro pos hpos hlt
      rw [hcontent pos hpos hlt, contents_cons_of_after (by omega)]
    rw [if_neg hpast] at h
    have hfront : ∀ pos, pos < seg.offset → contents blob (seg :: rest) pos = none := by
      intro pos hpos
      apply contents_of_before
      intro s hs
      rcases List.mem_cons.mp hs with rfl | hs
      · exact hpos
      · have := hbefore s hs
        omega
    by_cases hafter : stop ≤ seg.offset
    · rw [if_pos hafter] at h
      cases h
      refine ⟨hr, fun pos hpos hlt ↦ ?_⟩
      rw [hcontent pos hpos hlt, hfront pos (by omega)]
    rw [if_neg hafter] at h
    -- the position once the hole in front of the segment is filled
    have hfilled : ∃ s : Reading, s = (if r.cur < seg.offset then
        r.zeroTo offset (min seg.offset stop) else r) ∧ s.Upto content offset stop ∧
          s.cur = max r.cur seg.offset := by
      refine ⟨_, rfl, ?_⟩
      by_cases hgap : r.cur < seg.offset
      · rw [if_pos hgap, Nat.min_eq_left (by omega)]
        refine ⟨hr.zeroTo hgap (by omega) fun pos hpos hlt ↦ ?_, by simp only [Reading.zeroTo]; omega⟩
        rw [hcontent pos hpos (by omega), hfront pos hlt]
      · rw [if_neg hgap]
        exact ⟨hr, by omega⟩
    obtain ⟨s, hs, hupto, hcur⟩ := hfilled
    rw [← hs] at h
    by_cases hfull : stop ≤ s.cur
    · rw [if_pos hfull] at h
      cases h
      exact ⟨hupto, fun pos hpos hlt ↦ by omega⟩
    rw [if_neg hfull] at h
    obtain ⟨t, htake, h⟩ := bind_eq_ok.mp h
    obtain ⟨htaken, hreached⟩ := hupto.takeTo (Nat.min_le_right _ _) (by omega) (by
      intro pos hpos hlt
      rw [hcontent pos (by omega) (by omega), contents, if_pos (by omega)]) htake
    by_cases hend : stop ≤ t.cur
    · rw [if_pos hend] at h
      cases h
      exact ⟨htaken, fun pos hpos hlt ↦ by omega⟩
    rw [if_neg hend] at h
    apply readLoop_upto h htaken hrest
    intro pos hpos hlt
    rw [hcontent pos (by omega) hlt, contents_cons_of_after (by omega)]

/-- A read of segments in order gives the window on their contents, and tells whether a position
of it is in none of them. -/
theorem readPartsRanges_window {r : Reading} (h : readPartsRanges blob segs offset buf = .ok r)
    (hsegs : InOrder segs) :
    r.buf = window (contents blob segs) 0 offset buf.length ∧
      (r.hadGap = true ↔ HasHole (contents blob segs) offset buf.length) := by
  rw [readPartsRanges, bind_eq_ok] at h
  obtain ⟨stop, hplus, h⟩ := h
  obtain ⟨-, rfl⟩ := plus_eq_ok.mp hplus
  obtain ⟨s, hloop, h⟩ := bind_eq_ok.mp h
  have hstart : ({ cur := offset, buf, hadGap := false, touched := [] } : Reading).Upto
      (contents blob segs) offset (offset + buf.length) :=
    ⟨le_rfl, by simp, by simp, by simp, by simp [not_hasHole_zero]⟩
  obtain ⟨hupto, hleft⟩ := readLoop_upto hloop hstart hsegs fun _ _ _ ↦ rfl
  have hdone : r.Upto (contents blob segs) offset (offset + buf.length) ∧
      r.cur = offset + buf.length := by
    have hbound := hupto.bound
    by_cases hend : s.cur < offset + buf.length
    · rw [if_pos hend] at h
      cases h
      exact ⟨hupto.zeroTo hend le_rfl hleft, rfl⟩
    · rw [if_neg hend] at h
      cases h
      exact ⟨hupto, by omega⟩
  obtain ⟨hall, hcur⟩ := hdone
  have hlen : r.cur - offset = buf.length := by omega
  have hread := hall.read
  have hgap := hall.gap
  rw [hlen] at hread hgap
  rw [List.take_of_length_le (by rw [hall.length]; omega)] at hread
  exact ⟨hread, hgap⟩

end Content

end Engine.PartFile
