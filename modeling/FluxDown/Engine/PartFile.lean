import FluxDown.Base.Fallible
import FluxDown.Base.Saturating
import FluxDown.Base.SortedMap
import FluxDown.Base.Sparse

/-!
# The sidecar of a partly selected torrent

Library `Engine`. When a torrent is complete, its selected files are moved away and the others are
deleted. A piece at the border of a selected file also has bytes of files beside it, and these go
into a sidecar: a header in JSON that names the selected files on disk and the segments of the
others, and then the bytes of the segments. The sidecar is written once and read when the torrent
is seeded again. JSON is a parameter, and an addition that leaves its type is a fault.
-/

namespace Engine.PartFile

open Base

/-! ## Faults -/

/-- How a call ends without a result: an operation leaves its type, or the call returns an error. -/
inductive Fault where
  | overflow
  | failed (text : String)
deriving DecidableEq, Repr

/-- An error with its text. -/
def fail {α : Type} (text : String) : Except Fault α := .error (.failed text)

/-- Go on if the condition holds. -/
def ensure (p : Prop) [Decidable p] (text : String) : Except Fault Unit :=
  if p then .ok () else fail text

/-- Addition of 64 bits. -/
def plus (a b : Nat) : Except Fault Nat := (checkedAdd a b).elim (.error .overflow) .ok

/-- Multiplication of 64 bits. -/
def times (a b : Nat) : Except Fault Nat := (checkedMul a b).elim (.error .overflow) .ok

/-- An error of the code below, with what the caller puts before it. -/
def relay {α : Type} (text : String) : Except String α → Except Fault α
  | .ok a => .ok a
  | .error e => fail (text ++ e)

/-- What `read_exact` says of a short file. -/
def shortRead : String := "failed to fill whole buffer"

section Faults

variable {α β : Type} {a b n : Nat}

/-- A value is passed on. -/
theorem ok_bind (v : α) (f : α → Except Fault β) : ((Except.ok v : Except Fault α) >>= f) = f v :=
  rfl

/-- An error is no value. -/
@[simp] theorem fail_ne_ok (text : String) (v : α) : (fail text : Except Fault α) ≠ .ok v := by
  simp [fail]

/-- A check succeeds when its condition holds. -/
@[simp] theorem ensure_eq_ok {p : Prop} [Decidable p] {text : String} {u : Unit} :
    ensure p text = .ok u ↔ p := by
  unfold ensure
  by_cases hp : p <;> simp [hp]

/-- A check whose condition holds succeeds. -/
theorem ensure_of {p : Prop} [Decidable p] {text : String} (hp : p) : ensure p text = .ok () :=
  if_pos hp

/-- A sum that fits is the sum. -/
theorem plus_of_le (h : a + b ≤ maxU64) : plus a b = .ok (a + b) := by
  rw [plus, checkedAdd_of_le h, Option.elim_some]

/-- A sum is a value when it fits. -/
theorem plus_eq_ok : plus a b = .ok n ↔ a + b ≤ maxU64 ∧ n = a + b := by
  by_cases h : a + b ≤ maxU64
  · simp [plus_of_le h, h, eq_comm]
  · simp [plus, checkedAdd_of_lt (Nat.lt_of_not_le h), h]

/-- A product that fits is the product. -/
theorem times_of_le (h : a * b ≤ maxU64) : times a b = .ok (a * b) := by
  rw [times, checkedMul_of_le h, Option.elim_some]

/-- An error that is passed on under another text is no value. -/
@[simp] theorem relay_eq_ok {text : String} {x : Except String α} {v : α} :
    relay text x = .ok v ↔ x = .ok v := by
  cases x <;> simp [relay]

/-- A loop that never faults is a map. -/
theorem mapM_of_ok {f : α → Except Fault β} {g : α → β} : ∀ {l : List α},
    (∀ a ∈ l, f a = .ok (g a)) → l.mapM f = .ok (l.map g)
  | [], _ => rfl
  | a :: l, h => by
    rw [List.mapM_cons, h a List.mem_cons_self, ok_bind,
      mapM_of_ok fun x hx ↦ h x (List.mem_cons_of_mem a hx), ok_bind, List.map_cons]
    rfl

/-- A loop that ends has done each of its steps. -/
theorem getElem?_of_mapM {f : α → Except Fault β} : ∀ {l : List α} {l' : List β},
    l.mapM f = .ok l' → ∀ i : Nat, l[i]?.map f = l'[i]?.map .ok
  | [], l', h, i => by
    cases h
    rfl
  | a :: l, l', h, i => by
    rw [List.mapM_cons, bind_eq_ok] at h
    obtain ⟨b, hb, h⟩ := h
    obtain ⟨rest, hrest, h⟩ := bind_eq_ok.mp h
    cases h
    cases i with
    | zero => simp [hb]
    | succ i => simpa using getElem?_of_mapM hrest i

end Faults

/-! ## Paths -/

/-- A part of a path (`std::path::Component`). Prefixes other than a drive letter start with two
separators; no text below has one. A name is text: names that are not UTF-8 are left out. -/
inductive Component where
  | drive (letter : Char)
  | rootDir
  | curDir
  | parentDir
  | normal (name : String)
deriving DecidableEq, Repr

namespace Component

/-- The part starts a path of its own. -/
def isDrive : Component → Bool
  | drive _ => true
  | _ => false

/-- The part as it is printed. -/
def text : Component → String
  | drive letter => String.ofList [letter, ':']
  | rootDir => ""
  | curDir => "."
  | parentDir => ".."
  | normal name => name

/-- The part as it is printed for a programmer. -/
def debug : Component → String
  | drive letter => "Prefix(PrefixComponent \x7b raw: \"" ++ String.ofList [letter, ':'] ++
      "\", parsed: Disk(" ++ toString letter.toNat ++ ") \x7d)"
  | rootDir => "RootDir"
  | curDir => "CurDir"
  | parentDir => "ParentDir"
  | normal name => "Normal(\"" ++ name ++ "\")"

end Component

/-- A path, as its parts. -/
abbrev Path := List Component

namespace Path

/-- The path as it is printed. -/
def display (path : Path) : String := "/".intercalate (path.map Component.text)

/-- Both separators of Windows, the one of other systems. -/
def isSeparator (windows : Bool) (c : Char) : Bool := c == '/' || (windows && c == '\\')

/-- The part that a text between separators is, if it is one. -/
def componentOf (piece : List Char) : Option Component :=
  match String.ofList piece with
  | "" => none
  | "." => none
  | ".." => some .parentDir
  | name => some (.normal name)

/-- The parts after a drive letter: a separator in front is the root, a point in front is kept. -/
def relativeComponents (windows : Bool) (text : List Char) : Path :=
  match text.splitOnP (isSeparator windows) with
  | [] => []
  | first :: rest =>
    (if first = [] ∧ rest ≠ [] then [.rootDir]
      else if first = ['.'] then [.curDir] else (componentOf first).toList) ++
      rest.filterMap componentOf

/-- The parts of a text (`Path::components`). -/
def components (windows : Bool) (text : String) : Path :=
  match text.toList with
  | letter :: ':' :: rest =>
    if windows && letter.isAlpha then .drive letter :: relativeComponents windows rest
    else relativeComponents windows text.toList
  | chars => relativeComponents windows chars

/-- Put a path behind another (`Path::join`). One with a drive replaces it, one with a root keeps
the drive, and a point is only kept in front. -/
def join (path other : Path) : Path :=
  match other with
  | .drive letter :: rest => .drive letter :: rest
  | .rootDir :: rest => path.filter Component.isDrive ++ .rootDir :: rest
  | rest => if path.all Component.isDrive then path ++ rest
    else path ++ rest.filter (· ≠ .curDir)

/-- Put a text behind a path (`PathBuf::push`). -/
def push (windows : Bool) (path : Path) (text : String) : Path :=
  path.join (components windows text)

/-- The rest of a path below another (`Path::strip_prefix`). -/
def below (path dir : Path) : Option Path :=
  if dir.isPrefixOf path then some (path.drop dir.length) else none

end Path

/-! ## The format -/

/-- `src/native/engine/src/bt_partfile.rs:47`. -/
def partsMagic : List UInt8 := "FXPARTS1".toList.map fun c ↦ c.toNat.toUInt8

/-- `bt_partfile.rs:48`. -/
def partsVersion : Nat := 1

/-- The largest header (`bt_partfile.rs:50`). -/
def maxHeaderLen : Nat := 16 * 1024 * 1024

/-- A selected file. `bt_partfile.rs:77–82`. -/
structure SelectedEntry where
  fileId : Nat
  relPath : String
  len : Nat
deriving DecidableEq, Repr

/-- Bytes of another file, and where in the blob they are. `bt_partfile.rs:85–92`. -/
structure SegmentEntry where
  fileId : Nat
  offset : Nat
  len : Nat
  blobOffset : Nat
deriving DecidableEq, Repr

/-- `bt_partfile.rs:66–74`. -/
structure PartsHeader where
  version : Nat
  infoHash : String
  pieceLength : Nat
  totalLength : Nat
  selected : List SelectedEntry
  segments : List SegmentEntry
deriving DecidableEq, Repr

/-- The JSON of headers (`serde_json::to_vec`, `serde_json::from_slice`). -/
structure HeaderCodec where
  toVec : PartsHeader → Except String (List UInt8)
  fromSlice : List UInt8 → Except String PartsHeader

/-- What is written is read back. -/
def HeaderCodec.RoundTrips (codec : HeaderCodec) : Prop :=
  ∀ header json, codec.toVec header = .ok json → codec.fromSlice json = .ok header

/-- `u32::to_le_bytes`. -/
def toLeBytes (n : Nat) : List UInt8 :=
  [n.toUInt8, (n / 256).toUInt8, (n / 65536).toUInt8, (n / 16777216).toUInt8]

/-- `u32::from_le_bytes`. -/
def fromLeBytes (bytes : List UInt8) : Nat :=
  bytes.foldr (fun byte n ↦ byte.toNat + 256 * n) 0

/-! ## Writing -/

/-- What a sidecar needs to know of a file. `bt_partfile.rs:100–107`. -/
structure PartsFileMeta where
  relativePath : Path
  len : Nat
  offsetInTorrent : Nat
  firstPiece : Nat
  endPiece : Nat
  padding : Bool
deriving DecidableEq, Repr

namespace PartsFileMeta

/-- The piece is in the range of the file. -/
def HasPiece (f : PartsFileMeta) (p : Nat) : Prop := f.firstPiece ≤ p ∧ p < f.endPiece

instance (f : PartsFileMeta) (p : Nat) : Decidable (f.HasPiece p) :=
  inferInstanceAs (Decidable (_ ∧ _))

end PartsFileMeta

/-- A piece of a selected file. `bt_partfile.rs:121–127`. -/
def Needed (files : List PartsFileMeta) (selected : List Nat) (p : Nat) : Prop :=
  ∃ entry ∈ files.zipIdx, entry.2 ∈ selected ∧ entry.1.padding = false ∧ entry.1.HasPiece p

instance (files : List PartsFileMeta) (selected : List Nat) (p : Nat) :
    Decidable (Needed files selected p) :=
  inferInstanceAs (Decidable (∃ entry ∈ _, _))

/-- The first and the last piece of a file. `bt_partfile.rs:134–139`. -/
def PartsFileMeta.candidates (f : PartsFileMeta) : List Nat :=
  let first := f.firstPiece
  let last := f.endPiece - 1
  if last ≠ first then [first, last] else [first]

/-- The bytes of a file in a piece, as an offset in the file and a length.
`bt_partfile.rs:144–151`. -/
def pieceSegment (f : PartsFileMeta) (pieceLength totalLength p : Nat) :
    Except Fault (List (Nat × Nat)) := do
  let pieceStart ← times p pieceLength
  let pieceStop ← plus pieceStart pieceLength
  let pieceEnd := min pieceStop totalLength
  let fileEnd ← plus f.offsetInTorrent f.len
  let start := max pieceStart f.offsetInTorrent
  let stop := min pieceEnd fileEnd
  .ok (if start < stop then [(start - f.offsetInTorrent, stop - start)] else [])

/-- The segments of one file. `bt_partfile.rs:130–153`. -/
def fileSegments (files : List PartsFileMeta) (selected : List Nat)
    (pieceLength totalLength : Nat) (entry : PartsFileMeta × Nat) :
    Except Fault (List (Nat × Nat × Nat)) :=
  let (f, id) := entry
  if id ∈ selected ∨ f.padding ∨ f.len = 0 ∨ f.endPiece ≤ f.firstPiece then .ok []
  else do
    let found ← (f.candidates.filter fun p ↦ Needed files selected p).mapM
      (pieceSegment f pieceLength totalLength)
    .ok (found.flatten.map fun s ↦ (id, s))

/-- The bytes of files that are not selected in pieces of those that are: file, offset, length.
`bt_partfile.rs:115–155`. -/
def boundarySegments (files : List PartsFileMeta) (selected : List Nat)
    (pieceLength totalLength : Nat) : Except Fault (List (Nat × Nat × Nat)) := do
  let found ← files.zipIdx.mapM (fileSegments files selected pieceLength totalLength)
  .ok found.flatten

/-- `bt_partfile.rs:158–169`. -/
structure SidecarWriteRequest where
  sidecarPath : Path
  infoHashHex : String
  pieceLength : Nat
  totalLength : Nat
  files : List PartsFileMeta
  selected : List (Nat × Path)
  saveDir : Path
  stageDir : Path

/-- The name of a part of a path below the directory. -/
def componentName : Component → Except Fault String
  | .normal name => .ok name
  | other => fail ("unexpected path component " ++ other.debug)

/-- The path below the directory, with slashes. `bt_partfile.rs:172–194`. -/
def relPathString (dst saveDir : Path) : Except Fault String :=
  match dst.below saveDir with
  | none => fail s!"dst '{dst.display}' not under save_dir"
  | some rel => do
    let parts ← rel.mapM componentName
    ensure (parts ≠ []) "empty relative path"
    .ok ("/".intercalate parts)

/-- The entry of a selected file. `bt_partfile.rs:234–244`. -/
def selectedEntry (req : SidecarWriteRequest) (entry : Nat × Path) :
    Except Fault SelectedEntry :=
  let (id, dst) := entry
  match req.files[id]? with
  | none => fail s!"selected file_id {id} out of range"
  | some f => do
    let relPath ← relPathString dst req.saveDir
    .ok { fileId := id, relPath, len := f.len }

/-- The entries of the segments, one behind the other in the blob. `bt_partfile.rs:247–257`. -/
def segmentEntries : List (Nat × Nat × Nat) → Nat → Except Fault (List SegmentEntry)
  | [], _ => .ok []
  | (id, offset, len) :: segs, blobCursor => do
    let next ← plus blobCursor len
    let rest ← segmentEntries segs next
    .ok ({ fileId := id, offset, len, blobOffset := blobCursor } :: rest)

/-- `bt_partfile.rs:287`. -/
def copyBufLen : Nat := 256 * 1024

/-- Copy from a staged file, a buffer at a time. The first argument bounds the turns.
`bt_partfile.rs:295–303`. -/
def copyLoop (srcPath : Path) (src : List UInt8) : Nat → Nat → Nat → Except Fault (List UInt8)
  | 0, _, _ => .ok []
  | turns + 1, pos, remaining =>
    if remaining = 0 then .ok []
    else do
      let chunk := min remaining copyBufLen
      ensure (pos + chunk ≤ src.length) s!"read staging '{srcPath.display}': {shortRead}"
      let rest ← copyLoop srcPath src turns (pos + chunk) (remaining - chunk)
      .ok ((src.drop pos).take chunk ++ rest)

/-- Copy a segment. `bt_partfile.rs:288–304`. -/
def copySegment (stage : Path → Except String (List UInt8)) (req : SidecarWriteRequest)
    (seg : Nat × Nat × Nat) : Except Fault (List UInt8) :=
  let (id, offset, len) := seg
  match req.files[id]? with
  | none => fail "index out of bounds"
  | some f => do
    let srcPath := req.stageDir.join f.relativePath
    let src ← relay s!"open staging '{srcPath.display}': " (stage srcPath)
    copyLoop srcPath src len offset len

/-- The bytes that get the name of the sidecar in the end, and the number of segments. Errors of
the file that is written and of its directory are left out. `bt_partfile.rs:224–315`. -/
def writeSidecar (codec : HeaderCodec) (stage : Path → Except String (List UInt8))
    (req : SidecarWriteRequest) : Except Fault (List UInt8 × Nat) := do
  let segs ← boundarySegments req.files (req.selected.map Prod.fst) req.pieceLength
    req.totalLength
  let selected ← req.selected.mapM (selectedEntry req)
  let segments ← segmentEntries segs 0
  let header : PartsHeader :=
    { version := partsVersion, infoHash := req.infoHashHex, pieceLength := req.pieceLength,
      totalLength := req.totalLength, selected, segments }
  let headerJson ← relay "serialize header: " (codec.toVec header)
  ensure (headerJson.length ≤ maxU32) "header too large"
  ensure (headerJson.length ≤ maxHeaderLen) "header too large"
  let copied ← segs.mapM (copySegment stage req)
  .ok (partsMagic ++ toLeBytes headerJson.length ++ headerJson ++ copied.flatten, segs.length)

/-! ## Loading -/

/-- Bytes of a file that the sidecar has, with their place in the sidecar.
`bt_partfile.rs:335–339`. -/
structure SegSpec where
  offset : Nat
  len : Nat
  blobPos : Nat
deriving DecidableEq, Repr

/-- `bt_partfile.rs:341–349`. -/
structure SeedLayout where
  sidecarPath : Path
  infoHash : String
  selected : SortedMap Nat Path
  parts : SortedMap Nat (List SegSpec)
  maxFileId : Nat

/-- The segments of a file, in order of their offsets (`bt_partfile.rs:421`, `594`). -/
def SeedLayout.segmentsOf (layout : SeedLayout) (id : Nat) : List SegSpec :=
  (layout.parts.get? id).getD []

/-- What opening a sidecar gives. -/
inductive Opened where
  | notFound
  | failed (text : String)
  | file (bytes : List UInt8)

/-- A part of a path that could lead out of the directory. `bt_partfile.rs:202–207`. -/
def unsafeComponent (comp : List Char) : Bool :=
  comp.isEmpty || comp == ['.'] || comp == ['.', '.'] || comp.contains '\\' || comp.contains ':'

/-- Put one part of a path of the sidecar behind the path so far. `bt_partfile.rs:202–210`. -/
def pushChecked (windows : Bool) (rel : String) (path : Path) (comp : List Char) :
    Except Fault Path := do
  ensure (unsafeComponent comp = false)
    s!"unsafe path component '{String.ofList comp}' in '{rel}'"
  .ok (path.push windows (String.ofList comp))

/-- The path of a selected file. `bt_partfile.rs:198–217`. -/
def resolveRelPath (windows : Bool) (rel : String) (saveDir : Path) : Except Fault Path := do
  let comps := rel.toList.splitOn '/'
  let path ← comps.foldlM (pushChecked windows rel) saveDir
  ensure (comps ≠ []) "empty relative path"
  .ok path

/-- Bytes from the front of what is left of the sidecar, and the rest (`Read::read_exact`). -/
def readExact (sidecarPath : Path) (count : Nat) (bytes : List UInt8) :
    Except Fault (List UInt8 × List UInt8) := do
  ensure (count ≤ bytes.length) s!"read '{sidecarPath.display}': {shortRead}"
  .ok (bytes.take count, bytes.drop count)

/-- The header, and where the blob starts. `bt_partfile.rs:438–457`. -/
def readHeader (codec : HeaderCodec) (sidecarPath : Path) (bytes : List UInt8) :
    Except Fault (PartsHeader × Nat) := do
  let (magic, bytes) ← readExact sidecarPath 8 bytes
  ensure (magic = partsMagic) "bad magic"
  let (lenBuf, bytes) ← readExact sidecarPath 4 bytes
  let headerLen := fromLeBytes lenBuf
  ensure (headerLen ≠ 0 ∧ headerLen ≤ maxHeaderLen) s!"bad header length {headerLen}"
  let (headerBuf, _) ← readExact sidecarPath headerLen bytes
  let header ← relay "parse header: " (codec.fromSlice headerBuf)
  ensure (header.version = partsVersion) s!"unsupported version {header.version}"
  .ok (header, 12 + headerLen)

namespace SeedLayout

/-- Take in a selected file. `bt_partfile.rs:466–472`. -/
def addSelected (windows : Bool) (saveDir : Path) (layout : SeedLayout) (entry : SelectedEntry) :
    Except Fault SeedLayout := do
  let path ← resolveRelPath windows entry.relPath saveDir
  ensure (layout.selected.get? entry.fileId = none)
    s!"duplicate selected file_id {entry.fileId}"
  .ok { layout with
    selected := layout.selected.insert entry.fileId path
    maxFileId := max layout.maxFileId entry.fileId }

/-- Take in a segment. `bt_partfile.rs:477–494`. -/
def addSegment (blobBase blobLen : Nat) (layout : SeedLayout) (entry : SegmentEntry) :
    Except Fault SeedLayout := do
  ensure (layout.selected.get? entry.fileId = none)
    s!"segment for selected file_id {entry.fileId}"
  let stop ← (checkedAdd entry.blobOffset entry.len).elim (fail "segment overflow") .ok
  ensure (stop ≤ blobLen) s!"segment beyond blob end ({stop} > {blobLen})"
  let blobPos ← plus blobBase entry.blobOffset
  .ok { layout with
    parts := layout.parts.insert entry.fileId
      (layout.segmentsOf entry.fileId ++ [{ offset := entry.offset, len := entry.len, blobPos }])
    maxFileId := max layout.maxFileId entry.fileId }

/-- Put the segments of each file in order. `bt_partfile.rs:495–497`. -/
def sortParts (layout : SeedLayout) : SeedLayout :=
  { layout with
    parts := layout.parts.mapValues fun _ segs ↦
      segs.insertionSort fun a b ↦ a.offset ≤ b.offset }

end SeedLayout

/-- Read and check a sidecar; none is no error. `bt_partfile.rs:432–506`. -/
def loadSeedLayout (codec : HeaderCodec) (windows : Bool) (sidecarPath saveDir : Path)
    (opened : Opened) : Except Fault (Option SeedLayout) :=
  match opened with
  | .notFound => .ok none
  | .failed e => fail s!"open '{sidecarPath.display}': {e}"
  | .file bytes => do
    let (header, blobBase) ← readHeader codec sidecarPath bytes
    let blobLen := bytes.length - blobBase
    let layout : SeedLayout :=
      { sidecarPath, infoHash := header.infoHash, selected := .empty, parts := .empty,
        maxFileId := 0 }
    let layout ← header.selected.foldlM (SeedLayout.addSelected windows saveDir) layout
    ensure (layout.selected.entries ≠ []) "sidecar has no selected files"
    let layout ← header.segments.foldlM (SeedLayout.addSegment blobBase blobLen) layout
    .ok (some layout.sortParts)

end Engine.PartFile
