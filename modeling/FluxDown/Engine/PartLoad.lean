import FluxDown.Base.Framing
import FluxDown.Engine.PartFile

/-!
# What a sidecar that is accepted holds

Library `Engine`. A path that is resolved is the directory with names behind it, and names have no
separator and no drive. The segments of a file are those of the header with its number, in order
of their offsets, and lie in the blob.
-/

namespace Engine.PartFile

open Base

/-! ## Paths -/

/-- A name that is one part of a path on every system, and no step up or aside. -/
def PlainName (name : List Char) : Prop := unsafeComponent name = false ∧ '/' ∉ name

/-- The path is the directory with one or more names behind it. -/
def PlainBelow (dir path : Path) : Prop :=
  ∃ names : List (List Char), names ≠ [] ∧ (∀ name ∈ names, PlainName name) ∧
    path = dir ++ names.map fun name ↦ .normal (String.ofList name)

private theorem unsafeComponent_eq_false {name : List Char} : unsafeComponent name = false ↔
    name ≠ [] ∧ name ≠ ['.'] ∧ name ≠ ['.', '.'] ∧ '\\' ∉ name ∧ ':' ∉ name := by
  simp [unsafeComponent, and_assoc]

/-- A plain name is read as one part. -/
theorem PlainName.components {name : List Char} (h : PlainName name) (windows : Bool) :
    Path.components windows (String.ofList name) = [.normal (String.ofList name)] := by
  obtain ⟨hsafe, hslash⟩ := h
  obtain ⟨hne, hpoint, hpoints, hback, hcolon⟩ := unsafeComponent_eq_false.mp hsafe
  have hwhole : name.splitOnP (Path.isSeparator windows) = [name] := by
    apply List.splitOnP_eq_singleton
    intro c hc
    have hc₁ : c ≠ '/' := fun heq ↦ hslash (heq ▸ hc)
    have hc₂ : c ≠ '\\' := fun heq ↦ hback (heq ▸ hc)
    simp [Path.isSeparator, hc₁, hc₂]
  have hone : Path.componentOf name = some (.normal (String.ofList name)) := by
    have htext : ∀ text : String, String.ofList name = text → name = text.toList := by
      rintro text rfl
      rw [String.toList_ofList]
    rw [Path.componentOf]
    split
    · exact absurd (show name = [] from htext "" ‹_›) hne
    · exact absurd (show name = ['.'] from htext "." ‹_›) hpoint
    · exact absurd (show name = ['.', '.'] from htext ".." ‹_›) hpoints
    · rfl
  have hrelative : Path.relativeComponents windows name = [.normal (String.ofList name)] := by
    rw [Path.relativeComponents, hwhole]
    simp [hne, hpoint, hone]
  rw [Path.components, String.toList_ofList]
  split
  · simp at hcolon
  · exact hrelative

/-- A plain name goes one level down. -/
theorem PlainName.push {name : List Char} (h : PlainName name) (windows : Bool) (path : Path) :
    path.push windows (String.ofList name) = path ++ [.normal (String.ofList name)] := by
  rw [Path.push, h.components]
  simp [Path.join]

/-- The parts of a path of the sidecar are pushed as names, or the path is refused. -/
theorem foldlM_pushChecked {windows : Bool} {rel : String} :
    ∀ {comps : List (List Char)} {path path' : Path}, (∀ comp ∈ comps, '/' ∉ comp) →
      comps.foldlM (pushChecked windows rel) path = .ok path' →
        (∀ comp ∈ comps, PlainName comp) ∧
          path' = path ++ comps.map fun name ↦ .normal (String.ofList name)
  | [], path, path', _, h => by
    cases h
    simp
  | comp :: comps, path, path', hslash, h => by
    rw [List.foldlM_cons, bind_eq_ok] at h
    obtain ⟨next, hpush, hrest⟩ := h
    rw [pushChecked, bind_eq_ok] at hpush
    obtain ⟨_, hsafe, hpush⟩ := hpush
    have hplain : PlainName comp := ⟨ensure_eq_ok.mp hsafe, hslash comp List.mem_cons_self⟩
    rw [hplain.push] at hpush
    cases hpush
    obtain ⟨hall, rfl⟩ :=
      foldlM_pushChecked (fun x hx ↦ hslash x (List.mem_cons_of_mem _ hx)) hrest
    exact ⟨List.forall_mem_cons.mpr ⟨hplain, hall⟩, by simp⟩

/-- A path that is resolved is the directory with names behind it. -/
theorem resolveRelPath_plain {windows : Bool} {rel : String} {saveDir path : Path}
    (h : resolveRelPath windows rel saveDir = .ok path) : PlainBelow saveDir path := by
  rw [resolveRelPath, bind_eq_ok] at h
  obtain ⟨last, hloop, h⟩ := h
  obtain ⟨_, -, h⟩ := bind_eq_ok.mp h
  cases h
  obtain ⟨hall, rfl⟩ := foldlM_pushChecked (fun comp hcomp ↦ not_mem_of_mem_splitOn hcomp) hloop
  exact ⟨_, List.splitOn_ne_nil _ _, hall, rfl⟩

/-! ## Segments -/

/-- JSON that knows one header. -/
def HeaderCodec.only (header : PartsHeader) (json : List UInt8) : HeaderCodec where
  toVec h := if h = header then .ok json else .error "other header"
  fromSlice text := if text = json then .ok header else .error "other text"

/-- The one header is written as its JSON. -/
theorem HeaderCodec.only_toVec (header : PartsHeader) (json : List UInt8) :
    (HeaderCodec.only header json).toVec header = .ok json := if_pos rfl

/-- The one header is read back. -/
theorem HeaderCodec.only_roundTrips (header : PartsHeader) (json : List UInt8) :
    (HeaderCodec.only header json).RoundTrips := by
  intro h text htext
  simp only [only] at htext ⊢
  split at htext
  · next heq =>
    obtain rfl := Except.ok.inj htext
    rw [if_pos rfl, heq]
  · cases htext

/-- The segment as it is kept, for a blob that starts at the position. -/
def SegmentEntry.spec (blobBase : Nat) (e : SegmentEntry) : SegSpec :=
  { offset := e.offset, len := e.len, blobPos := blobBase + e.blobOffset }

/-- The segments of a file, as the header lists them. -/
def specsOf (blobBase : Nat) (segments : List SegmentEntry) (id : Nat) : List SegSpec :=
  (segments.filter fun e ↦ e.fileId = id).map (SegmentEntry.spec blobBase)

private theorem readExact_eq_ok {sidecarPath : Path} {count : Nat} {bytes front rest : List UInt8} :
    readExact sidecarPath count bytes = .ok (front, rest) ↔
      count ≤ bytes.length ∧ front = bytes.take count ∧ rest = bytes.drop count := by
  rw [readExact, bind_eq_ok]
  constructor
  · rintro ⟨_, hlong, h⟩
    cases h
    exact ⟨ensure_eq_ok.mp hlong, rfl, rfl⟩
  · rintro ⟨hlong, rfl, rfl⟩
    exact ⟨(), ensure_of hlong, rfl⟩

/-- The blob starts behind the header and not behind the end of the file. -/
theorem readHeader_base {codec : HeaderCodec} {sidecarPath : Path} {bytes : List UInt8}
    {header : PartsHeader} {blobBase : Nat}
    (h : readHeader codec sidecarPath bytes = .ok (header, blobBase)) :
    12 ≤ blobBase ∧ blobBase ≤ bytes.length := by
  rw [readHeader, bind_eq_ok] at h
  obtain ⟨⟨magic, rest⟩, hmagic, h⟩ := h
  obtain ⟨hlong, rfl, rfl⟩ := readExact_eq_ok.mp hmagic
  obtain ⟨_, -, h⟩ := bind_eq_ok.mp h
  obtain ⟨⟨lenBuf, rest⟩, hlen, h⟩ := bind_eq_ok.mp h
  obtain ⟨hlong', rfl, rfl⟩ := readExact_eq_ok.mp hlen
  obtain ⟨_, -, h⟩ := bind_eq_ok.mp h
  obtain ⟨⟨headerBuf, rest⟩, hheader, h⟩ := bind_eq_ok.mp h
  obtain ⟨hlong'', rfl, rfl⟩ := readExact_eq_ok.mp hheader
  obtain ⟨parsed, -, h⟩ := bind_eq_ok.mp h
  obtain ⟨_, -, h⟩ := bind_eq_ok.mp h
  cases h
  simp only [List.length_drop] at hlong' hlong''
  omega

private theorem fromLeBytes_toLeBytes {n : Nat} (h : n ≤ maxU32) :
    fromLeBytes (toLeBytes n) = n := by
  have hbound : n < 4294967296 := Nat.lt_of_le_of_lt h (by decide)
  simp only [fromLeBytes, toLeBytes, List.foldr_cons, List.foldr_nil, Nat.toUInt8, UInt8.toNat_ofNat']
  omega

/-- Reading the header of a sidecar that is put together from its parts. -/
theorem readHeader_parts_eq_ok {codec : HeaderCodec} {sidecarPath : Path} {json blob : List UInt8}
    {header : PartsHeader} {blobBase : Nat} (hlong : json.length ≤ maxU32) :
    readHeader codec sidecarPath (partsMagic ++ toLeBytes json.length ++ json ++ blob) =
        .ok (header, blobBase) ↔
      (json.length ≠ 0 ∧ json.length ≤ maxHeaderLen) ∧ codec.fromSlice json = .ok header ∧
        header.version = partsVersion ∧ blobBase = 12 + json.length := by
  have hmagic : readExact sidecarPath 8 (partsMagic ++ toLeBytes json.length ++ json ++ blob) =
      .ok (partsMagic, toLeBytes json.length ++ json ++ blob) := by
    rw [readExact_eq_ok]
    refine ⟨?_, ?_, ?_⟩ <;> simp [show partsMagic.length = 8 from rfl]
  have hlen : readExact sidecarPath 4 (toLeBytes json.length ++ json ++ blob) =
      .ok (toLeBytes json.length, json ++ blob) := by
    rw [readExact_eq_ok]
    refine ⟨?_, ?_, ?_⟩ <;> simp [toLeBytes]
  have hheader : readExact sidecarPath json.length (json ++ blob) = .ok (json, blob) := by
    rw [readExact_eq_ok]
    refine ⟨?_, ?_, ?_⟩ <;> simp
  rw [readHeader, hmagic, ok_bind]
  dsimp only
  rw [ensure_of rfl, ok_bind, hlen, ok_bind]
  dsimp only
  rw [fromLeBytes_toLeBytes hlong]
  constructor
  · intro h
    obtain ⟨_, hrange, h⟩ := bind_eq_ok.mp h
    rw [hheader, ok_bind] at h
    obtain ⟨parsed, hparsed, h⟩ := bind_eq_ok.mp h
    obtain ⟨_, hversion, h⟩ := bind_eq_ok.mp h
    cases h
    exact ⟨ensure_eq_ok.mp hrange, relay_eq_ok.mp hparsed, ensure_eq_ok.mp hversion, rfl⟩
  · rintro ⟨hrange, hparsed, hversion, rfl⟩
    rw [ensure_of hrange, ok_bind, hheader, ok_bind]
    dsimp only
    rw [relay_eq_ok.mpr hparsed, ok_bind, ensure_of hversion, ok_bind]

namespace SeedLayout

variable {windows : Bool} {saveDir : Path} {blobBase blobLen : Nat} {layout layout' : SeedLayout}

/-- What taking in a selected file does. -/
theorem addSelected_ok {entry : SelectedEntry}
    (h : layout.addSelected windows saveDir entry = .ok layout') :
    ∃ path, resolveRelPath windows entry.relPath saveDir = .ok path ∧
      layout.selected.get? entry.fileId = none ∧
      layout' = { layout with
        selected := layout.selected.insert entry.fileId path
        maxFileId := max layout.maxFileId entry.fileId } := by
  rw [addSelected, bind_eq_ok] at h
  obtain ⟨path, hpath, h⟩ := h
  obtain ⟨_, hfresh, h⟩ := bind_eq_ok.mp h
  cases h
  exact ⟨path, hpath, ensure_eq_ok.mp hfresh, rfl⟩

/-- What taking in a segment does. -/
theorem addSegment_ok {entry : SegmentEntry}
    (h : layout.addSegment blobBase blobLen entry = .ok layout') :
    layout.selected.get? entry.fileId = none ∧ entry.blobOffset + entry.len ≤ blobLen ∧
      layout' = { layout with
        parts := layout.parts.insert entry.fileId
          (layout.segmentsOf entry.fileId ++ [entry.spec blobBase])
        maxFileId := max layout.maxFileId entry.fileId } := by
  rw [addSegment, bind_eq_ok] at h
  obtain ⟨_, hfree, h⟩ := h
  obtain ⟨stop, hstop, h⟩ := bind_eq_ok.mp h
  obtain ⟨_, hbound, h⟩ := bind_eq_ok.mp h
  obtain ⟨pos, hpos, h⟩ := bind_eq_ok.mp h
  obtain ⟨-, rfl⟩ := plus_eq_ok.mp hpos
  rw [ensure_eq_ok] at hbound
  cases h
  refine ⟨ensure_eq_ok.mp hfree, ?_, rfl⟩
  cases hsum : checkedAdd entry.blobOffset entry.len with
  | none => simp [hsum] at hstop
  | some n =>
    rw [hsum, Option.elim_some] at hstop
    cases hstop
    rwa [← eq_of_checkedAdd hsum]

private theorem addSelecteds_ok : ∀ {entries : List SelectedEntry} {layout layout' : SeedLayout},
    entries.foldlM (addSelected windows saveDir) layout = .ok layout' →
      (∀ id path, layout.selected.get? id = some path → PlainBelow saveDir path) →
        layout'.sidecarPath = layout.sidecarPath ∧ layout'.parts = layout.parts ∧
          ∀ id path, layout'.selected.get? id = some path → PlainBelow saveDir path
  | [], layout, layout', h, hplain => by
    cases h
    exact ⟨rfl, rfl, hplain⟩
  | entry :: entries, layout, layout', h, hplain => by
    rw [List.foldlM_cons, bind_eq_ok] at h
    obtain ⟨next, hstep, hrest⟩ := h
    obtain ⟨path, hpath, -, rfl⟩ := addSelected_ok hstep
    apply addSelecteds_ok hrest
    intro id path' hget
    rw [SortedMap.get?_insert] at hget
    by_cases hid : id = entry.fileId
    · rw [if_pos hid] at hget
      cases hget
      exact resolveRelPath_plain hpath
    · rw [if_neg hid] at hget
      exact hplain id path' hget

private theorem addSegments_ok : ∀ {entries : List SegmentEntry} {layout layout' : SeedLayout},
    entries.foldlM (addSegment blobBase blobLen) layout = .ok layout' →
      (∀ e ∈ entries, layout.selected.get? e.fileId = none ∧ e.blobOffset + e.len ≤ blobLen) ∧
        layout'.sidecarPath = layout.sidecarPath ∧ layout'.selected = layout.selected ∧
          ∀ id, layout'.segmentsOf id = layout.segmentsOf id ++ specsOf blobBase entries id
  | [], layout, layout', h => by
    cases h
    simp [specsOf]
  | entry :: entries, layout, layout', h => by
    rw [List.foldlM_cons, bind_eq_ok] at h
    obtain ⟨next, hstep, hrest⟩ := h
    obtain ⟨hfree, hbound, rfl⟩ := addSegment_ok hstep
    obtain ⟨hall, hpath, hselected, hsegments⟩ := addSegments_ok hrest
    refine ⟨List.forall_mem_cons.mpr ⟨⟨hfree, hbound⟩, hall⟩, hpath, hselected, fun id ↦ ?_⟩
    rw [hsegments]
    by_cases hid : entry.fileId = id
    · simp [segmentsOf, specsOf, hid]
    · simp [segmentsOf, specsOf, hid, Ne.symm hid]

private theorem segmentsOf_sortParts (layout : SeedLayout) (id : Nat) :
    layout.sortParts.segmentsOf id =
      (layout.segmentsOf id).insertionSort fun a b ↦ a.offset ≤ b.offset := by
  rw [sortParts, segmentsOf, segmentsOf, SortedMap.get?_mapValues]
  cases layout.parts.get? id <;> rfl

end SeedLayout

/-- A sidecar that is accepted has a header. -/
theorem exists_readHeader {codec : HeaderCodec} {windows : Bool} {sidecarPath saveDir : Path}
    {bytes : List UInt8} {layout : SeedLayout}
    (h : loadSeedLayout codec windows sidecarPath saveDir (.file bytes) = .ok (some layout)) :
    ∃ header blobBase, readHeader codec sidecarPath bytes = .ok (header, blobBase) := by
  obtain ⟨⟨header, blobBase⟩, hread, -⟩ := bind_eq_ok.mp h
  exact ⟨header, blobBase, hread⟩

/-- What a sidecar that is accepted holds. -/
theorem loadSeedLayout_ok {codec : HeaderCodec} {windows : Bool} {sidecarPath saveDir : Path}
    {bytes : List UInt8} {layout : SeedLayout} {header : PartsHeader} {blobBase : Nat}
    (h : loadSeedLayout codec windows sidecarPath saveDir (.file bytes) = .ok (some layout))
    (hheader : readHeader codec sidecarPath bytes = .ok (header, blobBase)) :
    layout.sidecarPath = sidecarPath ∧
      (∀ id path, layout.selected.get? id = some path → PlainBelow saveDir path) ∧
      (∀ e ∈ header.segments, layout.selected.get? e.fileId = none ∧
        e.blobOffset + e.len ≤ bytes.length - blobBase) ∧
      ∀ id, layout.segmentsOf id =
        (specsOf blobBase header.segments id).insertionSort fun a b ↦ a.offset ≤ b.offset := by
  rw [loadSeedLayout, hheader, ok_bind] at h
  obtain ⟨first, hselected, h⟩ := bind_eq_ok.mp h
  obtain ⟨_, -, h⟩ := bind_eq_ok.mp h
  obtain ⟨second, hsegments, h⟩ := bind_eq_ok.mp h
  cases h
  obtain ⟨hpath, hparts, hplain⟩ := SeedLayout.addSelecteds_ok hselected (by simp)
  obtain ⟨hbounds, hpath', hsame, hspecs⟩ := SeedLayout.addSegments_ok hsegments
  rw [← hsame] at hbounds hplain
  refine ⟨hpath'.trans hpath, hplain, hbounds, fun id ↦ ?_⟩
  have hnone : first.segmentsOf id = [] := by simp [SeedLayout.segmentsOf, hparts]
  rw [SeedLayout.segmentsOf_sortParts, hspecs, hnone, List.nil_append]

end Engine.PartFile
