import FluxDown.Base.Run
import FluxDown.Engine.PartLoad
import FluxDown.Engine.PartRanges

/-!
# Serving a sidecar

Library `Engine`. The storage that seeds a torrent from its selected files and its sidecar. A
sidecar is checked once, when it is loaded, and its segments are then used for every request. The
check bounds the place of a segment in the blob, not its end in the file: a request can overflow
exactly where that end, or the bytes a file's segments hold together, leave 64 bits. Nothing else
can go wrong, and no request leaves the blob.
-/

namespace Engine.PartFile

open Base

/-! ## The storage -/

/-- What the storage needs of the files of a torrent. -/
structure FileInfo where
  len : Nat
  padding : Bool
deriving DecidableEq, Repr

/-- The torrent that is seeded. -/
structure Torrent where
  infoHash : String
  fileInfos : List FileInfo

/-- Where a file of the torrent is. `src/native/engine/src/bt_partfile.rs:611–620`. -/
inductive Slot where
  | selected (path : Path) (file : Option (List UInt8))
  | parts (segments : List SegSpec)
  | padding
deriving DecidableEq, Repr

/-- The storage. The flag that a hole was logged is left out. `bt_partfile.rs:624–629`. -/
structure PartsSeedStorage where
  slots : List Slot
  blobPath : Path
  blob : Option (List UInt8)
deriving DecidableEq, Repr

/-- `str::eq_ignore_ascii_case`. -/
def eqIgnoreAsciiCase (a b : String) : Prop :=
  a.toList.map Char.toLower = b.toList.map Char.toLower

instance (a b : String) : Decidable (eqIgnoreAsciiCase a b) :=
  inferInstanceAs (Decidable (_ = _))

/-- The slot of a file. `bt_partfile.rs:584–597`. -/
def SeedLayout.slot (layout : SeedLayout) (entry : FileInfo × Nat) : Slot :=
  let (info, id) := entry
  if info.padding then .padding
  else match layout.selected.get? id with
    | some path => .selected path none
    | none => .parts (layout.segmentsOf id)

/-- The storage of a torrent. `bt_partfile.rs:560–604`. -/
def SeedLayout.create (layout : SeedLayout) (torrent : Torrent) :
    Except Fault PartsSeedStorage := do
  ensure (layout.infoHash = "" ∨ eqIgnoreAsciiCase layout.infoHash torrent.infoHash)
    s!"parts sidecar info-hash mismatch ({layout.infoHash} != {torrent.infoHash})"
  let n := torrent.fileInfos.length
  ensure (layout.maxFileId < n)
    s!"parts sidecar references file_id {layout.maxFileId} but torrent has {n} files"
  .ok { slots := torrent.fileInfos.zipIdx.map layout.slot, blobPath := layout.sidecarPath,
        blob := none }

/-- Open a selected file. `bt_partfile.rs:790–799`. -/
def openSlot (disk : Path → Except String (List UInt8)) : Slot → Except Fault Slot
  | .selected path _ => do
    let file ← relay s!"open final file '{path.display}': " (disk path)
    .ok (.selected path (some file))
  | slot => .ok slot

/-- The slot has bytes in the blob. `bt_partfile.rs:803`. -/
def Slot.needsBlob : Slot → Bool
  | .parts segments => segments ≠ []
  | _ => false

namespace PartsSeedStorage

/-- Open the files, none of them new. `bt_partfile.rs:783–815`. -/
def init (disk : Path → Except String (List UInt8)) (s : PartsSeedStorage) :
    Except Fault PartsSeedStorage := do
  let slots ← s.slots.mapM (openSlot disk)
  if slots.any Slot.needsBlob then do
    let blob ← relay s!"open parts sidecar '{s.blobPath.display}': " (disk s.blobPath)
    .ok { s with slots, blob := some blob }
  else .ok { s with slots }

/-- The blob, if it is open. `bt_partfile.rs:773–779`. -/
def openBlob (s : PartsSeedStorage) : Except Fault (List UInt8) :=
  s.blob.elim (fail "parts blob not opened (storage taken?)") .ok

/-- Write a buffer to a range of a file. `bt_partfile.rs:842–862`. -/
def pwriteAll (s : PartsSeedStorage) (fileId offset : Nat) (buf : List UInt8) :
    Except Fault PartsSeedStorage :=
  match s.slots[fileId]? with
  | some (.selected path none) => fail s!"file '{path.display}' not opened"
  | some (.selected path (some file)) =>
    .ok { s with slots := s.slots.set fileId (.selected path (some (pwriteFile file offset buf))) }
  | some (.parts segments) => do
    let blob ← s.openBlob
    let (w, _) ← writePartsRanges blob segments offset buf
    .ok { s with blob := some w.blob }
  | some .padding => .ok s
  | none => fail s!"no such file_id {fileId}"

end PartsSeedStorage

/-! ## Requests -/

/-- What a request does. -/
inductive Access where
  | read
  | write
deriving DecidableEq, Repr

/-- A request for a range of a file: the buffer to fill, or to write. -/
structure Request where
  access : Access
  fileId : Nat
  offset : Nat
  buf : List UInt8

/-- The request stays in its file. -/
def Request.InRange (torrent : Torrent) (r : Request) : Prop :=
  ∃ info, torrent.fileInfos[r.fileId]? = some info ∧ r.offset + r.buf.length ≤ info.len

namespace PartsSeedStorage

/-- The storage after a request. -/
def after (s : PartsSeedStorage) (r : Request) : PartsSeedStorage :=
  match r.access with
  | .read => s
  | .write => match s.pwriteAll r.fileId r.offset r.buf with
    | .ok s' => s'
    | .error _ => s

/-- Where the request goes to the blob, it is served without a fault, and touches only what is
between two positions of the sidecar. -/
def Safe (first last : Nat) (s : PartsSeedStorage) (r : Request) : Prop :=
  ∀ segments blob, s.slots[r.fileId]? = some (.parts segments) → s.blob = some blob →
    match r.access with
    | .read => ∃ out, readPartsRanges blob segments r.offset r.buf = .ok out ∧
        ∀ t ∈ out.touched, Inside first last t
    | .write => ∃ out, writePartsRanges blob segments r.offset r.buf = .ok out ∧
        ∀ t ∈ out.1.touched, Inside first last t

/-- The segments of a file end in 64 bits, and so do the bytes of it that they hold together. -/
def Fits (len : Nat) (segments : List SegSpec) : Prop :=
  (∀ s ∈ segments, s.Ends) ∧ (segments.map (SegSpec.overlap 0 len)).sum ≤ maxU64

/-- What makes every request safe: the segments of the slots fit and are stored in the blob. -/
structure Sound (torrent : Torrent) (first last : Nat) (s : PartsSeedStorage) : Prop where
  parts : ∀ (id : Nat) segments, s.slots[id]? = some (.parts segments) →
    ∀ info, torrent.fileInfos[id]? = some info →
      Fits info.len segments ∧ ∀ seg ∈ segments, seg.Stored first last
  blob : ∀ blob, s.blob = some blob → blob.length = last

section Invariant

variable {torrent : Torrent} {first last : Nat} {s : PartsSeedStorage} {r : Request}

private theorem sum_overlap_le {segs : List SegSpec} {offset stop len : Nat} (h : stop ≤ len) :
    (segs.map (SegSpec.overlap offset stop)).sum ≤ (segs.map (SegSpec.overlap 0 len)).sum := by
  apply List.sum_le_sum
  intro seg _
  unfold SegSpec.overlap
  omega

/-- A request in its file is safe. -/
theorem Sound.safe (hs : s.Sound torrent first last) (hlast : last ≤ maxU64)
    (hlens : ∀ info ∈ torrent.fileInfos, info.len ≤ maxU64) (hr : r.InRange torrent) :
    s.Safe first last r := by
  intro segments blob hslot hblob
  obtain ⟨info, hinfo, hrange⟩ := hr
  obtain ⟨⟨hends, hsum⟩, hstored⟩ := hs.parts _ _ hslot info hinfo
  have hall : ∀ seg ∈ segments, seg.Ends ∧ seg.Stored first last :=
    fun seg hseg ↦ ⟨hends seg hseg, hstored seg hseg⟩
  have hfile : last ≤ blob.length := by rw [hs.blob blob hblob]
  have hstop : r.offset + r.buf.length ≤ maxU64 :=
    hrange.trans (hlens info (List.mem_of_getElem? hinfo))
  cases r.access with
  | read => exact readPartsRanges_inside hfile hlast hall hstop
  | write =>
    obtain ⟨w, dropped, hwrite, -, -, htouched⟩ := writePartsRanges_inside hfile hlast hall hstop
      ((sum_overlap_le hrange).trans hsum)
    exact ⟨(w, dropped), hwrite, htouched⟩

/-- What a write leaves. -/
theorem pwriteAll_ok {s' : PartsSeedStorage} {id offset : Nat} {buf : List UInt8}
    (h : s.pwriteAll id offset buf = .ok s') :
    (s'.blob = s.blob ∧ ∀ (k : Nat) segments, s'.slots[k]? = some (.parts segments) →
        s.slots[k]? = some (.parts segments)) ∨
      ∃ segments blob out, s.slots[id]? = some (.parts segments) ∧ s.blob = some blob ∧
        writePartsRanges blob segments offset buf = .ok out ∧
          s' = { s with blob := some out.1.blob } := by
  unfold pwriteAll at h
  split at h
  · simp at h
  · next path file hslot =>
    cases h
    refine .inl ⟨rfl, fun k segments hk ↦ ?_⟩
    simp only [List.getElem?_set] at hk
    split at hk
    · split at hk <;> simp at hk
    · exact hk
  · next segments hslot =>
    obtain ⟨blob, hblob, h⟩ := bind_eq_ok.mp h
    obtain ⟨out, hwrite, h⟩ := bind_eq_ok.mp h
    cases h
    refine .inr ⟨segments, blob, out, hslot, ?_, hwrite, rfl⟩
    unfold openBlob at hblob
    cases hopen : s.blob with
    | none => simp [hopen] at hblob
    | some b =>
      rw [hopen, Option.elim_some] at hblob
      cases hblob
      rfl
  · cases h
    exact .inl ⟨rfl, fun _ _ hk ↦ hk⟩
  · simp at h

/-- A request in its file keeps what makes requests safe. -/
theorem Sound.after (hs : s.Sound torrent first last) (hlast : last ≤ maxU64)
    (hlens : ∀ info ∈ torrent.fileInfos, info.len ≤ maxU64) (hr : r.InRange torrent) :
    (s.after r).Sound torrent first last := by
  unfold PartsSeedStorage.after
  cases r.access with
  | read => exact hs
  | write =>
    cases hwrite : s.pwriteAll r.fileId r.offset r.buf with
    | error e => exact hs
    | ok s' =>
      rcases pwriteAll_ok hwrite with ⟨hblob, hslots⟩ |
        ⟨segments, blob, out, hslot, hblob, hranges, rfl⟩
      · exact ⟨fun k segs hk ↦ hs.parts k segs (hslots k segs hk), by rw [hblob]; exact hs.blob⟩
      · refine ⟨hs.parts, fun b hb ↦ ?_⟩
        obtain ⟨info, hinfo, hrange⟩ := hr
        obtain ⟨⟨hends, hsum⟩, hstored⟩ := hs.parts _ _ hslot info hinfo
        obtain ⟨w, dropped, hsame, hlength, -⟩ := writePartsRanges_inside
          (by rw [hs.blob blob hblob]) hlast
          (fun seg hseg ↦ ⟨hends seg hseg, hstored seg hseg⟩)
          (hrange.trans (hlens info (List.mem_of_getElem? hinfo)))
          ((sum_overlap_le hrange).trans hsum)
        rw [hranges] at hsame
        cases hsame
        cases hb
        rw [hlength, hs.blob blob hblob]

/-- Every request of a run of requests in their files is safe. -/
theorem Sound.run_safe (hs : s.Sound torrent first last) (hlast : last ≤ maxU64)
    (hlens : ∀ info ∈ torrent.fileInfos, info.len ≤ maxU64) {requests : List Request}
    (hrequests : ∀ r ∈ requests, r.InRange torrent) :
    EveryStep PartsSeedStorage.after (Safe first last) s requests := by
  apply EveryStep.of_at
  intro n r hr
  have hstep : ∀ (s : PartsSeedStorage) (r : Request), s.Sound torrent first last →
      r.InRange torrent → (s.after r).Sound torrent first last :=
    fun s r hs hr ↦ hs.after hlast hlens hr
  have hbefore : ∀ r ∈ requests.take n, ∀ _ : PartsSeedStorage, r.InRange torrent :=
    fun r hr _ ↦ hrequests r (List.mem_of_mem_take hr)
  have hsound := run_invariant hstep hs (EveryStep.of_forall_mem hbefore s)
  exact hsound.safe hlast hlens (hrequests r (List.mem_of_getElem? hr))

end Invariant

end PartsSeedStorage

/-! ## From loading to serving -/

private theorem SeedLayout.slot_eq_parts {layout : SeedLayout} {info : FileInfo} {id : Nat}
    {segments : List SegSpec} : layout.slot (info, id) = .parts segments ↔
      info.padding = false ∧ layout.selected.get? id = none ∧
        segments = layout.segmentsOf id := by
  cases hpadding : info.padding
  · cases hget : layout.selected.get? id <;> simp [slot, hpadding, hget, eq_comm]
  · simp [slot, hpadding]

private theorem SeedLayout.create_ok {layout : SeedLayout} {torrent : Torrent}
    {s : PartsSeedStorage}
    (h : layout.create torrent = .ok s) :
    s = { slots := torrent.fileInfos.zipIdx.map layout.slot, blobPath := layout.sidecarPath,
          blob := none } := by
  obtain ⟨_, -, h⟩ := bind_eq_ok.mp h
  obtain ⟨_, -, h⟩ := bind_eq_ok.mp h
  exact (Except.ok.inj h).symm

section Opening

variable {disk : Path → Except String (List UInt8)}

private theorem openSlot_eq_parts {slot slot' : Slot} {segments : List SegSpec}
    (h : openSlot disk slot = .ok slot') : slot' = .parts segments ↔ slot = .parts segments := by
  cases slot with
  | selected path file =>
    obtain ⟨data, -, h⟩ := bind_eq_ok.mp h
    cases h
    simp
  | parts segs =>
    cases h
    rfl
  | padding =>
    cases h
    rfl

/-- Opening the files keeps the slots of the blob, and opens the blob if one of them needs it. -/
theorem PartsSeedStorage.init_ok {s s' : PartsSeedStorage} (h : s.init disk = .ok s') :
    (∀ (id : Nat) segments,
        s'.slots[id]? = some (.parts segments) ↔ s.slots[id]? = some (.parts segments)) ∧
      (s'.blob = s.blob ∧ (∀ slot ∈ s'.slots, slot.needsBlob = false) ∨
        ∃ blob, s'.blob = some blob ∧ disk s.blobPath = .ok blob) := by
  obtain ⟨slots, hslots, h⟩ := bind_eq_ok.mp h
  have hsame : ∀ (id : Nat) segments,
      slots[id]? = some (.parts segments) ↔ s.slots[id]? = some (.parts segments) := by
    intro id segments
    have hopen := getElem?_of_mapM hslots id
    cases hold : s.slots[id]? with
    | none => cases hnew : slots[id]? <;> simp [hold, hnew] at hopen ⊢
    | some slot =>
      cases hnew : slots[id]? with
      | none => simp [hold, hnew] at hopen
      | some slot' =>
        rw [hold, hnew, Option.map_some, Option.map_some, Option.some_inj] at hopen
        simpa using openSlot_eq_parts hopen
  by_cases hneeds : slots.any Slot.needsBlob
  · rw [if_pos hneeds] at h
    obtain ⟨blob, hblob, h⟩ := bind_eq_ok.mp h
    cases h
    exact ⟨hsame, .inr ⟨blob, rfl, relay_eq_ok.mp hblob⟩⟩
  · rw [if_neg hneeds] at h
    cases h
    refine ⟨hsame, .inl ⟨rfl, ?_⟩⟩
    simpa using hneeds

end Opening

/-- The segments of a file that the header lists end in 64 bits, and so do the bytes of the file
that they hold together. -/
def PartsHeader.Fits (header : PartsHeader) (id len : Nat) : Prop :=
  (∀ e ∈ header.segments, e.fileId = id → e.offset + e.len ≤ maxU64) ∧
    ((header.segments.filter fun e ↦ e.fileId = id).map fun e ↦
      min (e.offset + e.len) len - e.offset).sum ≤ maxU64

/-- The order of the segments does not matter. -/
theorem fits_insertionSort (header : PartsHeader) (blobBase id len : Nat) :
    PartsSeedStorage.Fits len ((specsOf blobBase header.segments id).insertionSort
      fun a b ↦ a.offset ≤ b.offset) ↔ header.Fits id len := by
  have hperm := List.perm_insertionSort (fun a b : SegSpec ↦ a.offset ≤ b.offset)
    (specsOf blobBase header.segments id)
  rw [PartsSeedStorage.Fits, (hperm.map _).sum_eq, PartsHeader.Fits]
  simp only [hperm.mem_iff]
  apply and_congr
  · simp only [specsOf, List.forall_mem_map, List.mem_filter, decide_eq_true_eq, and_imp]
    rfl
  · rw [specsOf, List.map_map]
    simp [Function.comp_def, SegmentEntry.spec, SegSpec.overlap]

/-- A sidecar that was accepted, and the storage that is made from it. File lengths are numbers of
64 bits. -/
structure Serving (codec : HeaderCodec) (windows : Bool) where
  sidecarPath : Path
  saveDir : Path
  bytes : List UInt8
  header : PartsHeader
  blobBase : Nat
  layout : SeedLayout
  torrent : Torrent
  disk : Path → Except String (List UInt8)
  storage : PartsSeedStorage
  size : bytes.length ≤ maxU64
  lens : ∀ info ∈ torrent.fileInfos, info.len ≤ maxU64
  read : readHeader codec sidecarPath bytes = .ok (header, blobBase)
  load : loadSeedLayout codec windows sidecarPath saveDir (.file bytes) = .ok (some layout)
  onDisk : disk sidecarPath = .ok bytes
  serve : (layout.create torrent >>= PartsSeedStorage.init disk) = .ok storage

namespace Serving

variable {codec : HeaderCodec} {windows : Bool} (sv : Serving codec windows)

/-- Every request of a run in the files of the torrent stays in the blob, without an overflow, and
selected files are below the directory. -/
def Safe : Prop :=
  (∀ requests : List Request, (∀ r ∈ requests, r.InRange sv.torrent) →
    EveryStep PartsSeedStorage.after (PartsSeedStorage.Safe sv.blobBase sv.bytes.length)
      sv.storage requests) ∧
    ∀ id path, sv.layout.selected.get? id = some path → PlainBelow sv.saveDir path

/-- The slots that are served from the blob. -/
theorem slots_eq_parts {id : Nat} {segments : List SegSpec} :
    sv.storage.slots[id]? = some (.parts segments) ↔
      ∃ info, sv.torrent.fileInfos[id]? = some info ∧ info.padding = false ∧
        sv.layout.selected.get? id = none ∧ segments = sv.layout.segmentsOf id := by
  obtain ⟨created, hcreate, hinit⟩ := bind_eq_ok.mp sv.serve
  rw [(PartsSeedStorage.init_ok hinit).1, SeedLayout.create_ok hcreate]
  simp [SeedLayout.slot_eq_parts]

/-- The blob that is open is the sidecar, and it is open if a slot needs it. -/
theorem blob_eq : (∀ blob, sv.storage.blob = some blob → blob = sv.bytes) ∧
    ((∃ slot ∈ sv.storage.slots, slot.needsBlob) → sv.storage.blob = some sv.bytes) := by
  obtain ⟨created, hcreate, hinit⟩ := bind_eq_ok.mp sv.serve
  have hpath := (loadSeedLayout_ok sv.load sv.read).1
  rcases (PartsSeedStorage.init_ok hinit).2 with ⟨hsame, hnone⟩ | ⟨blob, hblob, hread⟩
  · rw [SeedLayout.create_ok hcreate] at hsame
    refine ⟨fun blob hblob ↦ by simp [hsame] at hblob, fun ⟨slot, hslot, hneeds⟩ ↦ ?_⟩
    rw [hnone slot hslot] at hneeds
    cases hneeds
  · rw [SeedLayout.create_ok hcreate, hpath, sv.onDisk] at hread
    cases hread
    exact ⟨fun b hb ↦ by rw [hblob] at hb; exact (Option.some.inj hb).symm, fun _ ↦ hblob⟩

/-- The storage is sound if the segments of the header fit. -/
theorem sound (hfits : ∀ id info, sv.torrent.fileInfos[id]? = some info → info.padding = false →
    sv.header.Fits id info.len) :
    sv.storage.Sound sv.torrent sv.blobBase sv.bytes.length where
  parts := by
    intro id segments hslot info hinfo
    obtain ⟨info', hinfo', hpadding, -, rfl⟩ := sv.slots_eq_parts.mp hslot
    obtain ⟨-, -, hbounds, hspecs⟩ := loadSeedLayout_ok sv.load sv.read
    obtain ⟨-, hbase⟩ := readHeader_base sv.read
    rw [hinfo] at hinfo'
    cases hinfo'
    rw [hspecs]
    refine ⟨(fits_insertionSort _ _ _ _).mpr (hfits id info hinfo hpadding), fun seg hseg ↦ ?_⟩
    rw [(List.perm_insertionSort _ _).mem_iff, specsOf, List.mem_map] at hseg
    obtain ⟨e, he, rfl⟩ := hseg
    obtain ⟨-, hbound⟩ := hbounds e (List.mem_filter.mp he).1
    simp only [SegSpec.Stored, SegmentEntry.spec]
    omega
  blob := fun blob hblob ↦ by rw [sv.blob_eq.1 blob hblob]

/-- A sidecar is safe to serve exactly if the segments of each file that is not padding, the ones
that the header lists, end in 64 bits, and so do the bytes of the file that they hold together. -/
theorem sidecar_safe_iff : sv.Safe ↔ ∀ id info, sv.torrent.fileInfos[id]? = some info →
    info.padding = false → sv.header.Fits id info.len := by
  obtain ⟨-, hplain, hbounds, hspecs⟩ := loadSeedLayout_ok sv.load sv.read
  constructor
  · rintro ⟨hruns, -⟩ id info hinfo hpadding
    rw [← fits_insertionSort _ sv.blobBase, ← hspecs]
    by_cases hempty : sv.layout.segmentsOf id = []
    · rw [hempty]
      exact ⟨by simp, by simp⟩
    -- a segment of a selected file would have been refused
    have hfree : sv.layout.selected.get? id = none := by
      obtain ⟨seg, hseg⟩ := List.exists_mem_of_ne_nil _ hempty
      rw [hspecs, (List.perm_insertionSort _ _).mem_iff] at hseg
      obtain ⟨e, he, rfl⟩ := List.mem_map.mp hseg
      obtain ⟨hmem, hid⟩ := List.mem_filter.mp he
      rw [← of_decide_eq_true hid]
      exact (hbounds e hmem).1
    have hslot := sv.slots_eq_parts.mpr ⟨info, hinfo, hpadding, hfree, rfl⟩
    have hblob := sv.blob_eq.2 ⟨_, List.mem_of_getElem? hslot, by simpa [Slot.needsBlob]⟩
    -- a write of the whole file goes through every segment
    have hsafe := (hruns [⟨.write, id, 0, List.replicate info.len 0⟩] (by
      simpa using ⟨info, hinfo, by simp⟩)).1
    obtain ⟨out, hwrite, -⟩ := hsafe _ _ hslot hblob
    have hends := writePartsRanges_ends hwrite
    simpa [PartsSeedStorage.Fits] using hends
  · intro hfits
    refine ⟨fun requests hrequests ↦ ?_, hplain⟩
    exact (sv.sound hfits).run_safe sv.size sv.lens hrequests

end Serving

/-! ## A crafted sidecar -/

/-- A header with a selected file of four bytes, and one byte of the other file at the offset. -/
def craftedHeader (offset : Nat) : PartsHeader :=
  { version := 1, infoHash := "", pieceLength := 4, totalLength := 8,
    selected := [{ fileId := 0, relPath := "a", len := 4 }],
    segments := [{ fileId := 1, offset, len := 1, blobOffset := 0 }] }

/-- The JSON of the header, with the digits of the offset. -/
def craftedJson (digits : String) : List UInt8 :=
  ("\x7b\"version\":1,\"info_hash\":\"\",\"piece_length\":4,\"total_length\":8," ++
    "\"selected\":[\x7b\"file_id\":0,\"rel_path\":\"a\",\"len\":4\x7d]," ++
    "\"segments\":[\x7b\"file_id\":1,\"offset\":" ++ digits ++
    ",\"len\":1,\"blob_offset\":0\x7d]\x7d").toList.map fun c ↦ c.toNat.toUInt8

def craftedCodec (digits : String) (offset : Nat) : HeaderCodec :=
  .only (craftedHeader offset) (craftedJson digits)

/-- The sidecar, with one byte in the blob. -/
def craftedBytes (digits : String) : List UInt8 :=
  partsMagic ++ toLeBytes (craftedJson digits).length ++ craftedJson digits ++ [7]

def craftedDisk (digits : String) (path : Path) : Except String (List UInt8) :=
  if path = [.normal "t.parts"] then .ok (craftedBytes digits)
  else if path = [.rootDir, .normal "dl", .normal "a"] then .ok [1, 2, 3, 4]
  else .error "No such file or directory (os error 2)"

section Crafted

variable {digits : String} {offset : Nat}

/-- An offset of twenty digits. -/
theorem length_craftedJson (h : digits.toList.length = 20) : (craftedJson digits).length = 193 := by
  simp only [craftedJson, List.length_map, String.toList_append, List.length_append, h]
  rfl

private theorem length_craftedBytes (hlength : (craftedJson digits).length = 193) :
    (craftedBytes digits).length = 206 := by
  simp [craftedBytes, hlength, toLeBytes, show partsMagic.length = 8 from rfl]

private theorem readHeader_crafted (hlength : (craftedJson digits).length = 193) :
    readHeader (craftedCodec digits offset) [.normal "t.parts"] (craftedBytes digits) =
      .ok (craftedHeader offset, 205) := by
  rw [craftedBytes, readHeader_parts_eq_ok (by rw [hlength]; decide), hlength]
  exact ⟨by decide, if_pos rfl, rfl, rfl⟩

/-- The sidecar is accepted and served, whatever the offset. -/
def craftedServing (digits : String) (offset : Nat) (hlength : (craftedJson digits).length = 193) :
    Serving (craftedCodec digits offset) false where
  sidecarPath := [.normal "t.parts"]
  saveDir := [.rootDir, .normal "dl"]
  bytes := craftedBytes digits
  header := craftedHeader offset
  blobBase := 205
  layout :=
    { sidecarPath := [.normal "t.parts"], infoHash := ""
      selected := SortedMap.empty.insert 0 [.rootDir, .normal "dl", .normal "a"]
      parts := SortedMap.empty.insert 1 [{ offset, len := 1, blobPos := 205 }]
      maxFileId := 1 }
  torrent := { infoHash := "", fileInfos := [⟨4, false⟩, ⟨4, false⟩] }
  disk := craftedDisk digits
  storage :=
    { slots := [.selected [.rootDir, .normal "dl", .normal "a"] (some [1, 2, 3, 4]),
        .parts [{ offset, len := 1, blobPos := 205 }]]
      blobPath := [.normal "t.parts"], blob := some (craftedBytes digits) }
  size := by rw [length_craftedBytes hlength]; decide
  lens := by decide
  read := readHeader_crafted hlength
  load := by
    rw [loadSeedLayout, readHeader_crafted hlength, ok_bind]
    simp only [length_craftedBytes hlength]
    rfl
  onDisk := rfl
  serve := rfl

end Crafted

/-- The segment ends at the last number of 64 bits. -/
def lastServing : Serving (craftedCodec "18446744073709551614" (2 ^ 64 - 2)) false :=
  craftedServing _ _ (length_craftedJson rfl)

/-- The segment ends one further. -/
def overflowServing : Serving (craftedCodec "18446744073709551615" (2 ^ 64 - 1)) false :=
  craftedServing _ _ (length_craftedJson rfl)

/-- A sidecar with a segment at the end of its type is safe. -/
theorem lastServing_safe : lastServing.Safe := by
  apply lastServing.sidecar_safe_iff.mpr
  intro id info hinfo _
  match id, hinfo with
  | 0, hinfo =>
    cases hinfo
    exact ⟨by decide, by decide⟩
  | 1, hinfo =>
    cases hinfo
    exact ⟨by decide, by decide⟩

/-- The first byte of the other file cannot be read without an overflow. -/
theorem overflowServing_not_safe : ¬ overflowServing.Safe := by
  rintro ⟨hruns, -⟩
  have hrange : ∀ r ∈ [(⟨.read, 1, 0, [0]⟩ : Request)], r.InRange overflowServing.torrent := by
    intro r hr
    rw [List.mem_singleton.mp hr]
    exact ⟨⟨4, false⟩, rfl, by decide⟩
  obtain ⟨out, hread, -⟩ := (hruns _ hrange).1 _ _ rfl rfl
  rw [readPartsRanges, plus_of_le (by decide), ok_bind] at hread
  cases hread

end Engine.PartFile
