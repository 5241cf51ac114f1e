import FluxDown.Engine.PartBoundary

/-!
# A sidecar is written, loaded and read

Library `Engine`. Where files are selected at plain names below their directory and the bytes that
the segments need are staged, a sidecar is written, and it is loaded again on every system and below
every directory. What is read from it is what was staged, with zeros where no piece is needed.
-/

namespace Engine.PartFile

open Base

/-- The header that is written. -/
def SidecarWriteRequest.header (req : SidecarWriteRequest) : Except Fault PartsHeader := do
  let segs ← boundarySegments req.files (req.selected.map Prod.fst) req.pieceLength
    req.totalLength
  let selected ← req.selected.mapM (selectedEntry req)
  let segments ← segmentEntries segs 0
  .ok { version := partsVersion, infoHash := req.infoHashHex, pieceLength := req.pieceLength,
        totalLength := req.totalLength, selected, segments }

/-- What a request needs beside its layout: files of the torrent are selected, each once, and lie at
plain names below the directory; the bytes that the sidecar keeps are staged; and the JSON of the
header is there and not too long. -/
structure Storable (codec : HeaderCodec) (stage : Path → Except String (List UInt8))
    (req : SidecarWriteRequest) : Prop where
  selected : req.selected ≠ []
  distinct : (req.selected.map Prod.fst).Nodup
  present : ∀ entry ∈ req.selected, entry.1 < req.files.length
  below : ∀ entry ∈ req.selected, PlainBelow req.saveDir entry.2
  staged : ∀ id pos, Wanted req.files (req.selected.map Prod.fst) req.pieceLength id pos →
    (stagedByte stage req id pos).isSome
  json : ∀ header, req.header = .ok header → ∃ json, codec.toVec header = .ok json ∧
    json ≠ [] ∧ json.length ≤ maxHeaderLen

/-! ## Writing -/

section Write

variable {codec : HeaderCodec} {stage : Path → Except String (List UInt8)}
  {req : SidecarWriteRequest}

private theorem exists_mapM_ok {α β : Type} {f : α → Except Fault β} {l : List α}
    (h : ∀ a ∈ l, ∃ b, f a = .ok b) : ∃ l', l.mapM f = .ok l' := by
  induction l with
  | nil => exact ⟨[], rfl⟩
  | cons a l ih =>
    obtain ⟨b, hb⟩ := h a List.mem_cons_self
    obtain ⟨l', hl'⟩ := ih fun x hx ↦ h x (List.mem_cons_of_mem a hx)
    exact ⟨b :: l', by rw [List.mapM_cons, hb, ok_bind, hl', ok_bind]; rfl⟩

/-- A path with plain names below the directory is written as these names. -/
theorem relPathString_of_plain {names : List (List Char)} (hne : names ≠ [])
    (saveDir : Path) :
    relPathString (saveDir ++ names.map fun name ↦ .normal (String.ofList name)) saveDir =
      .ok ("/".intercalate (names.map String.ofList)) := by
  have hbelow : Path.below (saveDir ++ names.map fun name ↦ .normal (String.ofList name)) saveDir =
      some (names.map fun name ↦ .normal (String.ofList name)) := by
    rw [Path.below, if_pos (List.isPrefixOf_iff_prefix.mpr (List.prefix_append _ _)),
      List.drop_left]
  have hnames : (names.map fun name ↦ Component.normal (String.ofList name)).mapM componentName =
      .ok (names.map String.ofList) := by
    have hall := @mapM_of_ok _ _ componentName (fun c ↦ (componentName c).toOption.getD "")
      (names.map fun name ↦ Component.normal (String.ofList name)) fun c hc ↦ by
        obtain ⟨name, -, rfl⟩ := List.mem_map.mp hc
        rfl
    rw [hall, List.map_map]
    rfl
  rw [relPathString, hbelow]
  simp only [hnames, ok_bind]
  rw [ensure_of (by simpa using hne), ok_bind]

/-- What the segments are together is a place for all of them. -/
theorem segmentEntries_run : ∀ {segs : List (Nat × Nat × Nat)} {cursor : Nat},
    cursor + (segs.map fun s ↦ s.2.2).sum ≤ maxU64 → ∃ entries,
      segmentEntries segs cursor = .ok entries ∧
        ∀ e ∈ entries, e.blobOffset + e.len ≤ cursor + (segs.map fun s ↦ s.2.2).sum
  | [], cursor, _ => ⟨[], rfl, by simp⟩
  | (id, offset, len) :: segs, cursor, h => by
    rw [List.map_cons, List.sum_cons, ← Nat.add_assoc] at h ⊢
    dsimp only at h ⊢
    obtain ⟨entries, hentries, hbound⟩ := segmentEntries_run h
    have hnext : plus cursor len = .ok (cursor + len) := plus_of_le (by omega)
    refine ⟨_, by rw [segmentEntries, hnext, ok_bind, hentries, ok_bind], ?_⟩
    intro e he
    rcases List.mem_cons.mp he with rfl | he
    · dsimp only
      omega
    · exact hbound e he

/-- A copy of bytes that the file has goes to its end. -/
theorem copyLoop_run {srcPath : Path} {src : List UInt8} :
    ∀ {turns pos remaining : Nat}, pos + remaining ≤ src.length →
      ∃ data, copyLoop srcPath src turns pos remaining = .ok data
  | 0, _, _, _ => ⟨[], rfl⟩
  | turns + 1, pos, remaining, h => by
    by_cases hdone : remaining = 0
    · exact ⟨[], by rw [copyLoop, if_pos hdone]⟩
    · obtain ⟨rest, hrest⟩ := @copyLoop_run srcPath src turns (pos + min remaining copyBufLen)
        (remaining - min remaining copyBufLen) (by omega)
      refine ⟨(src.drop pos).take (min remaining copyBufLen) ++ rest, ?_⟩
      rw [copyLoop, if_neg hdone]
      dsimp only
      rw [ensure_of (by omega), ok_bind, hrest, ok_bind]

/-- A segment whose bytes are staged is copied. -/
theorem copySegment_run {id offset len : Nat} (hlen : 0 < len)
    (hstaged : (stagedByte stage req id (offset + (len - 1))).isSome) :
    ∃ data, copySegment stage req (id, offset, len) = .ok data := by
  unfold stagedByte at hstaged
  unfold copySegment
  cases hf : req.files[id]? with
  | none => simp [hf] at hstaged
  | some f =>
    rw [hf, Option.bind_some] at hstaged
    cases hsrc : stage (req.stageDir.join f.relativePath) with
    | error e => simp [hsrc, Except.toOption] at hstaged
    | ok src =>
      have hbyte : offset + (len - 1) < src.length := by
        rw [hsrc] at hstaged
        simpa [Except.toOption] using hstaged
      obtain ⟨data, hdata⟩ := @copyLoop_run (req.stageDir.join f.relativePath) src len offset len
        (by omega)
      refine ⟨data, ?_⟩
      simp only [hf, hsrc]
      rw [relay_eq_ok.mpr rfl, ok_bind, hdata]

/-- The entries of the selected files: their ids, and their names below the directory. -/
theorem selectedEntries_run (h : Storable codec stage req) : ∃ entries,
    req.selected.mapM (selectedEntry req) = .ok entries ∧
      entries.map SelectedEntry.fileId = req.selected.map Prod.fst ∧
        ∀ e ∈ entries, ∃ names : List (List Char), names ≠ [] ∧ (∀ name ∈ names, PlainName name) ∧
          e.relPath = "/".intercalate (names.map String.ofList) := by
  have hall : ∀ {selected : List (Nat × Path)},
      (∀ entry ∈ selected, entry.1 < req.files.length ∧ PlainBelow req.saveDir entry.2) →
        ∃ entries, selected.mapM (selectedEntry req) = .ok entries ∧
          entries.map SelectedEntry.fileId = selected.map Prod.fst ∧
            ∀ e ∈ entries, ∃ names : List (List Char), names ≠ [] ∧
              (∀ name ∈ names, PlainName name) ∧
                e.relPath = "/".intercalate (names.map String.ofList) := by
    intro selected
    induction selected with
    | nil => exact fun _ ↦ ⟨[], rfl, rfl, by simp⟩
    | cons entry selected ih =>
      intro hselected
      obtain ⟨id, dst⟩ := entry
      obtain ⟨hid, names, hne, hplain, hdst⟩ := hselected _ List.mem_cons_self
      obtain ⟨entries, hentries, hids, hnames⟩ := ih fun entry hentry ↦
        hselected entry (List.mem_cons_of_mem _ hentry)
      have hentry : selectedEntry req (id, dst) =
          .ok ⟨id, "/".intercalate (names.map String.ofList), req.files[id].len⟩ := by
        dsimp only at hdst
        have hfile : req.files[id]? = some req.files[id] := List.getElem?_eq_getElem hid
        simp only [hdst, selectedEntry, hfile]
        rw [relPathString_of_plain hne, ok_bind]
      refine ⟨_ :: entries, by rw [List.mapM_cons, hentry, ok_bind, hentries, ok_bind]; rfl, ?_, ?_⟩
      · rw [List.map_cons, List.map_cons, hids]
      · intro e he
        rcases List.mem_cons.mp he with rfl | he
        · exact ⟨names, hne, hplain, rfl⟩
        · exact hnames e he
  exact hall fun entry hentry ↦ ⟨h.present entry hentry, h.below entry hentry⟩

/-- A segment has a byte, of a file that is not selected. -/
theorem segment_of_mem (hlaid : Laid req.files req.pieceLength req.totalLength)
    {selected : List Nat} {s : Nat × Nat × Nat}
    (hs : s ∈ req.files.zipIdx.flatMap (fileSpans req.files selected req.pieceLength)) :
    0 < s.2.2 ∧ s.1 ∉ selected := by
  obtain ⟨⟨f, id⟩, hentry, hs⟩ := List.mem_flatMap.mp hs
  have hf : f ∈ req.files := List.mem_of_getElem? (List.mk_mem_zipIdx_iff_getElem?.mp hentry)
  unfold fileSpans at hs
  split at hs
  · cases hs
  · next hskip =>
    have hlen : 0 < f.len := by
      have : ¬ f.len = 0 := fun hzero ↦ hskip (.inr (.inr hzero))
      omega
    obtain ⟨p, hp, rfl⟩ := List.mem_map.mp hs
    have hpiece := f.candidates_hasPiece (hlaid.firstPiece_lt hf hlen) p (List.mem_filter.mp hp).1
    exact ⟨(hlaid.span_bounds hf hlen hpiece).1, fun hin ↦ hskip (.inl hin)⟩

/-- What the header of a request holds: the selected files, each with plain names, and the segments
with their places in the blob. -/
private structure HeaderOf (req : SidecarWriteRequest) (segs : List (Nat × Nat × Nat))
    (header : PartsHeader) : Prop where
  version : header.version = partsVersion
  ids : header.selected.map SelectedEntry.fileId = req.selected.map Prod.fst
  names : ∀ e ∈ header.selected, ∃ names : List (List Char), names ≠ [] ∧
    (∀ name ∈ names, PlainName name) ∧ e.relPath = "/".intercalate (names.map String.ofList)
  segments : header.segments.map (fun e ↦ (e.fileId, e.offset, e.len)) = segs
  bounds : ∀ e ∈ header.segments, e.blobOffset + e.len ≤ (segs.map fun s ↦ s.2.2).sum

/-- The sidecar of a request is written. -/
theorem writeSidecar_run (hlaid : Laid req.files req.pieceLength req.totalLength)
    (h : Storable codec stage req) {segs : List (Nat × Nat × Nat)}
    (hsegs : segs = req.files.zipIdx.flatMap
      (fileSpans req.files (req.selected.map Prod.fst) req.pieceLength)) :
    ∃ header json copied, HeaderOf req segs header ∧ codec.toVec header = .ok json ∧
      json ≠ [] ∧ json.length ≤ maxHeaderLen ∧ segs.mapM (copySegment stage req) = .ok copied ∧
        writeSidecar codec stage req = .ok
          (partsMagic ++ toLeBytes json.length ++ json ++ copied.flatten, segs.length) := by
  have hboundary : boundarySegments req.files (req.selected.map Prod.fst) _ _ = _ :=
    hlaid.boundarySegments_eq
  rw [← hsegs] at hboundary
  obtain ⟨selected, hselected, hids, hnames⟩ := selectedEntries_run h
  have hsum := hlaid.sum_segments_le hsegs
  have htotal := hlaid.totalLength_le
  have hmax := maxU32_mul_le
  obtain ⟨segments, hsegments, hbounds⟩ := @segmentEntries_run segs 0 (by omega)
  rw [Nat.zero_add] at hbounds
  have hheader : req.header = .ok ⟨partsVersion, req.infoHashHex, req.pieceLength,
      req.totalLength, selected, segments⟩ := by
    rw [SidecarWriteRequest.header, hboundary, ok_bind, hselected, ok_bind, hsegments, ok_bind]
  obtain ⟨json, hjson, hne, hlong⟩ := h.json _ hheader
  have hcopied : ∃ copied, segs.mapM (copySegment stage req) = .ok copied := by
    apply exists_mapM_ok
    rintro ⟨id, offset, len⟩ hs
    have hpos : 0 < len := (segment_of_mem hlaid (hsegs ▸ hs)).1
    have hcovers : Covers id (offset + (len - 1)) (id, offset, len) :=
      ⟨rfl, Nat.le_add_right _ _, by dsimp only; omega⟩
    have hcount := hlaid.countP_segments hsegs id (offset + (len - 1))
    have hsome : 0 < segs.countP fun s ↦ Covers id (offset + (len - 1)) s :=
      List.countP_pos_iff.mpr ⟨_, hs, decide_eq_true hcovers⟩
    apply copySegment_run hpos
    apply h.staged
    by_contra hwanted
    rw [if_neg hwanted] at hcount
    omega
  obtain ⟨copied, hcopied⟩ := hcopied
  refine ⟨_, json, copied, ⟨rfl, hids, hnames, map_segmentEntries hsegments, hbounds⟩, hjson, hne,
    hlong, hcopied, ?_⟩
  have hshort : json.length ≤ maxU32 := hlong.trans (by decide)
  rw [writeSidecar, hboundary, ok_bind, hselected, ok_bind, hsegments, ok_bind]
  dsimp only
  rw [relay_eq_ok.mpr hjson, ok_bind, ensure_of hshort, ok_bind, ensure_of hlong, ok_bind, hcopied,
    ok_bind]

end Write

/-! ## Loading -/

section Load

variable {windows : Bool} {saveDir : Path}

private theorem pushChecked_run {rel : String} : ∀ {names : List (List Char)} {path : Path},
    (∀ name ∈ names, PlainName name) → names.foldlM (pushChecked windows rel) path =
      .ok (path ++ names.map fun name ↦ .normal (String.ofList name))
  | [], path, _ => by
    rw [List.map_nil, List.append_nil]
    rfl
  | name :: names, path, h => by
    have hname := h name List.mem_cons_self
    have hpush : pushChecked windows rel path name =
        .ok (path ++ [.normal (String.ofList name)]) := by
      rw [pushChecked, ensure_of hname.1, ok_bind, hname.push]
    rw [List.foldlM_cons, hpush, ok_bind,
      pushChecked_run fun x hx ↦ h x (List.mem_cons_of_mem _ hx), List.map_cons, List.append_assoc,
      List.singleton_append]

/-- Plain names are read as they were written. -/
theorem resolveRelPath_run {names : List (List Char)} (hne : names ≠ [])
    (hplain : ∀ name ∈ names, PlainName name) :
    resolveRelPath windows ("/".intercalate (names.map String.ofList)) saveDir =
      .ok (saveDir ++ names.map fun name ↦ .normal (String.ofList name)) := by
  have htext : ("/".intercalate (names.map String.ofList)).toList.splitOn '/' = names := by
    have hlists : (names.map String.ofList).map String.toList = names := by
      rw [List.map_map]
      exact List.map_id'' (fun name ↦ String.toList_ofList) names
    rw [String.toList_intercalate, hlists]
    exact List.splitOn_intercalate '/' (fun name hname ↦ (hplain name hname).2) hne
  simp only [resolveRelPath, htext]
  rw [pushChecked_run hplain, ok_bind, ensure_of hne, ok_bind]

/-- Selected files with plain names are taken in, each once. -/
theorem addSelecteds_run : ∀ {entries : List SelectedEntry} {layout : SeedLayout},
    (entries.map SelectedEntry.fileId).Nodup →
      (∀ e ∈ entries, layout.selected.get? e.fileId = none) →
      (∀ e ∈ entries, ∃ names : List (List Char), names ≠ [] ∧ (∀ name ∈ names, PlainName name) ∧
        e.relPath = "/".intercalate (names.map String.ofList)) →
      ∃ layout', entries.foldlM (SeedLayout.addSelected windows saveDir) layout = .ok layout' ∧
        ∀ id, (layout'.selected.get? id).isSome ↔
          (layout.selected.get? id).isSome ∨ id ∈ entries.map SelectedEntry.fileId
  | [], layout, _, _, _ => ⟨layout, rfl, by simp⟩
  | e :: entries, layout, hdistinct, hfresh, hnames => by
    obtain ⟨hhead, hrest⟩ := List.nodup_cons.mp hdistinct
    obtain ⟨names, hne, hplain, hrel⟩ := hnames e List.mem_cons_self
    have hpath := @resolveRelPath_run windows saveDir names hne hplain
    obtain ⟨next, hnext⟩ : ∃ next : SeedLayout, next = { layout with
        selected := layout.selected.insert e.fileId
          (saveDir ++ names.map fun name ↦ .normal (String.ofList name))
        maxFileId := max layout.maxFileId e.fileId } := ⟨_, rfl⟩
    have hadd : layout.addSelected windows saveDir e = .ok next := by
      rw [SeedLayout.addSelected, hrel, hpath, ok_bind, ensure_of (hfresh e List.mem_cons_self),
        ok_bind, hnext]
    have hget : ∀ id, next.selected.get? id = if id = e.fileId then
        some (saveDir ++ names.map fun name ↦ .normal (String.ofList name))
        else layout.selected.get? id := fun id ↦ by rw [hnext, SortedMap.get?_insert]
    obtain ⟨layout', hloop, hkeys⟩ := @addSelecteds_run entries next hrest
      (fun e' he' ↦ by
        rw [hget, if_neg, hfresh e' (List.mem_cons_of_mem _ he')]
        intro hsame
        exact hhead (hsame ▸ List.mem_map_of_mem he'))
      fun e' he' ↦ hnames e' (List.mem_cons_of_mem _ he')
    refine ⟨layout', by rw [List.foldlM_cons, hadd, ok_bind, hloop], fun id ↦ ?_⟩
    rw [hkeys, hget, List.map_cons, List.mem_cons]
    by_cases hid : id = e.fileId
    · simp [hid]
    · simp [hid]

/-- Segments of other files that lie in the blob are taken in. -/
theorem addSegments_run (blobBase blobLen : Nat) (hsize : blobBase + blobLen ≤ maxU64) :
    ∀ {entries : List SegmentEntry} {layout : SeedLayout},
      (∀ e ∈ entries, layout.selected.get? e.fileId = none ∧ e.blobOffset + e.len ≤ blobLen) →
        ∃ layout', entries.foldlM (SeedLayout.addSegment blobBase blobLen) layout = .ok layout'
  | [], layout, _ => ⟨layout, rfl⟩
  | e :: entries, layout, h => by
    obtain ⟨hfree, hbound⟩ := h e List.mem_cons_self
    obtain ⟨next, hnext, hselected⟩ : ∃ next, layout.addSegment blobBase blobLen e = .ok next ∧
        next.selected = layout.selected := by
      refine ⟨{ layout with
        parts := layout.parts.insert e.fileId (layout.segmentsOf e.fileId ++ [e.spec blobBase])
        maxFileId := max layout.maxFileId e.fileId }, ?_, rfl⟩
      rw [SeedLayout.addSegment, ensure_of hfree, ok_bind, checkedAdd_of_le (by omega),
        Option.elim_some, ok_bind, ensure_of hbound, ok_bind, plus_of_le (by omega), ok_bind]
      rfl
    obtain ⟨layout', hloop⟩ := @addSegments_run blobBase blobLen hsize entries next
      fun e' he' ↦ hselected ▸ h e' (List.mem_cons_of_mem _ he')
    exact ⟨layout', by rw [List.foldlM_cons, hnext, ok_bind, hloop]⟩

/-- The sidecar that is written is loaded again, on every system and below every directory. -/
theorem loadSeedLayout_run {codec : HeaderCodec} (hcodec : codec.RoundTrips)
    {stage : Path → Except String (List UInt8)} {req : SidecarWriteRequest}
    (hlaid : Laid req.files req.pieceLength req.totalLength) (h : Storable codec stage req)
    {segs : List (Nat × Nat × Nat)}
    (hsegs : segs = req.files.zipIdx.flatMap
      (fileSpans req.files (req.selected.map Prod.fst) req.pieceLength)) :
    ∃ bytes, writeSidecar codec stage req = .ok (bytes, segs.length) ∧
      ∀ windows saveDir, ∃ layout,
        loadSeedLayout codec windows req.sidecarPath saveDir (.file bytes) = .ok (some layout) := by
  obtain ⟨header, json, copied, hheader, hjson, hne, hlong, hcopied, hwrite⟩ :=
    writeSidecar_run hlaid h hsegs
  refine ⟨_, hwrite, fun windows saveDir ↦ ?_⟩
  have hread : readHeader codec req.sidecarPath
      (partsMagic ++ toLeBytes json.length ++ json ++ copied.flatten) =
        .ok (header, 12 + json.length) := by
    apply (readHeader_parts_eq_ok (hlong.trans (by decide))).mpr
    have hlength : json.length ≠ 0 := fun hzero ↦ hne (List.length_eq_zero_iff.mp hzero)
    exact ⟨⟨hlength, hlong⟩, hcodec header json hjson, hheader.version, rfl⟩
  have hblob : (partsMagic ++ toLeBytes json.length ++ json ++ copied.flatten).length -
      (12 + json.length) = (segs.map fun s ↦ s.2.2).sum := by
    simp only [List.length_append, length_copied hcopied, toLeBytes, List.length_cons,
      List.length_nil, show partsMagic.length = 8 from rfl]
    omega
  have hsum := hlaid.sum_segments_le hsegs
  have htotal := hlaid.totalLength_le
  have hmax : maxU32 * maxU32 + (12 + maxHeaderLen) ≤ maxU64 := by decide
  obtain ⟨first, hselected, hkeys⟩ := @addSelecteds_run windows saveDir header.selected
    { sidecarPath := req.sidecarPath, infoHash := header.infoHash, selected := .empty,
      parts := .empty, maxFileId := 0 } (hheader.ids ▸ h.distinct) (by simp) hheader.names
  have hsome : first.selected.entries ≠ [] := by
    obtain ⟨entry, rest, hentry⟩ := List.exists_cons_of_ne_nil h.selected
    have hthere : (first.selected.get? entry.1).isSome := by
      rw [hkeys, hheader.ids, hentry]
      exact .inr List.mem_cons_self
    obtain ⟨path, hpath⟩ := Option.isSome_iff_exists.mp hthere
    exact List.ne_nil_of_mem ((SortedMap.get?_eq_some_iff _).mp hpath)
  have hsegments : ∀ e ∈ header.segments, first.selected.get? e.fileId = none ∧
      e.blobOffset + e.len ≤ (segs.map fun s ↦ s.2.2).sum := by
    intro e he
    refine ⟨?_, hheader.bounds e he⟩
    have hmem : (e.fileId, e.offset, e.len) ∈ segs := by
      rw [← hheader.segments]
      exact List.mem_map_of_mem he
    rw [← Option.not_isSome_iff_eq_none, hkeys, hheader.ids]
    rintro (hold | hin)
    · simp at hold
    · exact (segment_of_mem hlaid (hsegs ▸ hmem)).2 hin
  obtain ⟨last, hloop⟩ :=
    addSegments_run (12 + json.length) (segs.map fun s ↦ s.2.2).sum (by omega) hsegments
  refine ⟨last.sortParts, ?_⟩
  rw [loadSeedLayout, hread, ok_bind]
  dsimp only
  rw [hselected, ok_bind, ensure_of hsome, ok_bind, hblob, hloop, ok_bind]

end Load

/-- A sidecar is complete. The segments cover each byte of a file that is neither selected nor
padding, in a piece of one that is selected, once, and no other byte. The sidecar of a request whose
files and bytes are there is written, and is loaded again. Once a sidecar is written and loaded, a
read of such a file gives the staged byte where a segment covers it and zero elsewhere, and tells
whether a byte was not covered. -/
theorem sidecar_complete {codec : HeaderCodec} (hcodec : codec.RoundTrips)
    (stage : Path → Except String (List UInt8)) (req : SidecarWriteRequest)
    (hlaid : Laid req.files req.pieceLength req.totalLength) :
    ∃ segs, boundarySegments req.files (req.selected.map Prod.fst) req.pieceLength
        req.totalLength = .ok segs ∧
      (∀ id pos, segs.countP (fun s ↦ Covers id pos s) =
        if Wanted req.files (req.selected.map Prod.fst) req.pieceLength id pos then 1 else 0) ∧
      (Storable codec stage req → ∃ bytes,
        writeSidecar codec stage req = .ok (bytes, segs.length) ∧ ∀ windows saveDir, ∃ layout,
          loadSeedLayout codec windows req.sidecarPath saveDir (.file bytes) =
            .ok (some layout)) ∧
      ∀ windows saveDir bytes count layout, writeSidecar codec stage req = .ok (bytes, count) →
        loadSeedLayout codec windows req.sidecarPath saveDir (.file bytes) = .ok (some layout) →
          ∀ id f, req.files[id]? = some f → id ∉ req.selected.map Prod.fst → f.padding = false →
            ∀ offset buf, offset + buf.length ≤ f.len →
              ∃ r, readPartsRanges bytes (layout.segmentsOf id) offset buf = .ok r ∧
                r.buf.length = buf.length ∧
                (∀ i < buf.length, r.buf[i]? =
                  if Wanted req.files (req.selected.map Prod.fst) req.pieceLength id (offset + i)
                  then stagedByte stage req id (offset + i) else some 0) ∧
                (r.hadGap = true ↔ ∃ i < buf.length, ¬ Wanted req.files
                  (req.selected.map Prod.fst) req.pieceLength id (offset + i)) := by
  refine ⟨_, hlaid.boundarySegments_eq, fun id pos ↦ hlaid.countP_segments rfl id pos,
    fun h ↦ loadSeedLayout_run hcodec hlaid h rfl, ?_⟩
  generalize hselected : req.selected.map Prod.fst = selected
  intro windows saveDir bytes count layout hwrite hload id f hf hfree hpadding offset buf hrange
  have hkept := kept_of_load hcodec hlaid hselected hwrite hload hf
  have hend := (hlaid.follow.bounds f (List.mem_of_getElem? hf)).2
  have htotal := hlaid.totalLength_le
  have hmax := maxU32_mul_le
  rw [hlaid.total] at htotal
  obtain ⟨r, hread, -⟩ := readPartsRanges_inside le_rfl hkept.size hkept.fits
    (show offset + buf.length ≤ maxU64 by omega)
  obtain ⟨hbuf, hgap⟩ := readPartsRanges_window hread hkept.inOrder
  refine ⟨r, hread, by rw [hbuf, length_window], fun i hi ↦ ?_, ?_⟩
  · rw [hbuf, getElem?_window hi, hkept.contents]
    split
    · next hwanted =>
      obtain ⟨byte, hbyte⟩ := Option.isSome_iff_exists.mp (hkept.staged _ hwanted)
      rw [hbyte, Option.getD_some]
    · rfl
  · rw [hgap]
    apply exists_congr
    intro i
    apply and_congr_right
    intro _
    rw [hkept.contents]
    split
    · next hwanted =>
      obtain ⟨byte, hbyte⟩ := Option.isSome_iff_exists.mp (hkept.staged _ hwanted)
      simp [hbyte, hwanted]
    · next hwanted => simp [hwanted]

/-! ## A torrent of three files -/

/-- The files of the tests: the second shares a piece with the first (`bt_partfile.rs:958–982`). -/
def abcFiles : List PartsFileMeta :=
  [⟨[.normal "A.bin"], 10, 0, 0, 3, false⟩, ⟨[.normal "B.bin"], 6, 10, 2, 4, false⟩,
    ⟨[.normal "C.bin"], 8, 16, 4, 6, false⟩]

def abcRequest : SidecarWriteRequest :=
  { sidecarPath := [.normal "task-1.parts"], infoHashHex := String.ofList (List.replicate 40 'a'),
    pieceLength := 4, totalLength := 24, files := abcFiles,
    selected := [(1, [.normal "save", .normal "B.bin"])], saveDir := [.normal "save"],
    stageDir := [.normal "stage"] }

def abcStage (path : Path) : Except String (List UInt8) :=
  if path = [.normal "stage", .normal "A.bin"] then
    .ok ("0123456789".toList.map fun c ↦ c.toNat.toUInt8)
  else .error "No such file or directory (os error 2)"

def abcHeader : PartsHeader :=
  { version := 1, infoHash := String.ofList (List.replicate 40 'a'), pieceLength := 4,
    totalLength := 24, selected := [{ fileId := 1, relPath := "B.bin", len := 6 }],
    segments := [{ fileId := 0, offset := 8, len := 2, blobOffset := 0 }] }

/-- The JSON of the header. -/
def abcJson : List UInt8 :=
  ("\x7b\"version\":1,\"info_hash\":\"" ++ String.ofList (List.replicate 40 'a') ++
    "\",\"piece_length\":4,\"total_length\":24,\"selected\":[\x7b\"file_id\":1," ++
    "\"rel_path\":\"B.bin\",\"len\":6\x7d],\"segments\":[\x7b\"file_id\":0,\"offset\":8," ++
    "\"len\":2,\"blob_offset\":0\x7d]\x7d").toList.map fun c ↦ c.toNat.toUInt8

def abcCodec : HeaderCodec := .only abcHeader abcJson

private theorem abc_laid : Laid abcFiles 4 24 where
  pieceLength_pos := by decide
  pieceLength_le := by decide
  endPiece_le := by decide
  follow := ⟨rfl, rfl, rfl, trivial⟩
  total := by decide
  pieces := by
    simp only [abcFiles, List.forall_mem_cons, PartsFileMeta.HasPiece]
    refine ⟨?_, ?_, ?_, by simp⟩ <;> intro _ p <;> omega
  noBytes := by simp [abcFiles]

private theorem length_abcJson : abcJson.length = 219 := by decide +kernel

private theorem abc_storable : Storable abcCodec abcStage abcRequest where
  selected := by decide
  distinct := by decide
  present := by decide
  below := by
    intro entry hentry
    obtain rfl := List.mem_singleton.mp hentry
    exact ⟨["B.bin".toList], by decide, by simp only [PlainName]; decide, rfl⟩
  staged := by
    have hall : ∀ id < 3, ∀ pos < 10, Wanted abcFiles [1] 4 id pos →
        (stagedByte abcStage abcRequest id pos).isSome := by decide
    intro id pos hwanted
    have hwanted' : Wanted abcFiles [1] 4 id pos := hwanted
    obtain ⟨f, hf, -, -, hpos, -⟩ := hwanted
    have hid := (List.getElem?_eq_some_iff.mp hf).1
    have hlen : ∀ f ∈ abcFiles, f.len ≤ 10 := by decide
    have hbound := hlen f (List.mem_of_getElem? hf)
    exact hall id hid pos (by omega) hwanted'
  json := by
    intro header hheader
    have habc : abcRequest.header = .ok abcHeader := by decide
    obtain rfl := Except.ok.inj (habc.symm.trans hheader)
    refine ⟨abcJson, HeaderCodec.only_toVec _ _, ?_, ?_⟩
    · exact List.ne_nil_of_length_pos (by rw [length_abcJson]; decide)
    · rw [length_abcJson]
      decide

/-- The sidecar of the three files is written and loaded, and the last two bytes of the first file
are read behind two of which it has none. -/
theorem sidecar_complete_abc : ∃ bytes layout,
    writeSidecar abcCodec abcStage abcRequest = .ok (bytes, 1) ∧
      loadSeedLayout abcCodec false abcRequest.sidecarPath [.normal "save"] (.file bytes) =
        .ok (some layout) ∧
      ∃ r, readPartsRanges bytes (layout.segmentsOf 0) 6 (List.replicate 4 255) = .ok r ∧
        r.buf[1]? = some 0 ∧ r.buf[2]? = some 56 ∧ r.buf[3]? = some 57 ∧ r.hadGap = true := by
  obtain ⟨segs, hsegs, -, hrun, hread⟩ := sidecar_complete
    (HeaderCodec.only_roundTrips abcHeader abcJson) abcStage abcRequest abc_laid
  obtain ⟨bytes, hwrite, hload⟩ := hrun abc_storable
  obtain ⟨layout, hlayout⟩ := hload false [.normal "save"]
  obtain ⟨r, hr, hlength, hbytes, hgap⟩ := hread false [.normal "save"] bytes segs.length layout
    hwrite hlayout 0 ⟨[.normal "A.bin"], 10, 0, 0, 3, false⟩ rfl (by decide) rfl 6
    (List.replicate 4 255) (by decide)
  have hone : segs.length = 1 := by
    have habc : boundarySegments abcRequest.files (abcRequest.selected.map Prod.fst)
      abcRequest.pieceLength abcRequest.totalLength = .ok [(0, 8, 2)] := by decide
    rw [← Except.ok.inj (habc.symm.trans hsegs)]
    rfl
  refine ⟨bytes, layout, hone ▸ hwrite, hlayout, r, hr, ?_, ?_, ?_, ?_⟩
  · exact hbytes 1 (by decide)
  · exact hbytes 2 (by decide)
  · exact hbytes 3 (by decide)
  · exact hgap.mpr ⟨0, by decide, by decide⟩

end Engine.PartFile
