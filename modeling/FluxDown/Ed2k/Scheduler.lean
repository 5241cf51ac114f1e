import FluxDown.Base.Run
import FluxDown.Ed2k.Blocks
import FluxDown.Ed2k.Peer

/-!
# Scheduling the blocks of a download

Library `Ed2k`. The scheduler gives the blocks that are not verified to sources, a few at once,
puts the blocks that fail back, sets sources aside or blacklists them, and asks for sources when
it runs dry. Blocks whose MD4 is the expected one are marked, in the database and then in memory.
When all are marked the file is read again. What the peers, the sources, the disk and the database
answer is in the operations.
-/

namespace Ed2k

open Base

/-! ## Sources -/

/-- `src/native/engine/src/ed2k/server.rs:37–42`. -/
structure PeerAddr where
  ip : UInt32
  port : UInt16
deriving DecidableEq

/-- `src/native/engine/src/ed2k/client.rs:67–72`. -/
inductive Source where
  | highId (peer : PeerAddr)
  | lowId (clientId : UInt32)
deriving DecidableEq

/-- `src/native/engine/src/ed2k/mod.rs:57`. -/
def defaultEd2kConcurrency : Nat := 4

/-- `mod.rs:60`. -/
def maxEd2kConcurrency : Nat := 8

/-- `mod.rs:80–89`. -/
def ed2kConcurrency (segmentCount : Int) (remaining : Nat) : Nat :=
  let requested := if segmentCount ≤ 0 then defaultEd2kConcurrency else segmentCount.toNat
  min (max 1 (min requested maxEd2kConcurrency)) (max remaining 1)

/-- `mod.rs:103`. -/
def blockMaxRetries : Nat := 5

/-- `mod.rs:105`. -/
def maxSourceRetries : Nat := 3

/-- `mod.rs:107`. -/
def finalizeMaxRetries : Nat := 2

/-- `mod.rs:968`. -/
def pickWindow : Nat := 64

/-- `src/native/engine/src/ed2k/peer.rs:53`. -/
def peerLacksBlock : String := "peer does not hold requested block"

/-- Take the sources in turn, up to `tries` of them, until one is usable. `mod.rs:972–993`. -/
def pickSource (sources : List Source) (usable : Source → Bool) : Nat → Nat → Option Source × Nat
  | 0, roundRobin => (none, roundRobin)
  | tries + 1, roundRobin =>
    let next := (roundRobin + 1) % 2 ^ 64
    match sources[roundRobin % sources.length]? with
    | none => (none, next)
    | some src => if usable src then (some src, next) else pickSource sources usable tries next

/-! ## States -/

/-- A digest as it comes over the wire. -/
abbrev Digest := {md4 : Md4 // md4.length = 16}

/-- Where the scheduler is: before the outer loop looks at the blocks, before free slots are
filled, before sources are asked for, asleep without sources, waiting for tasks. -/
inductive SchedulerPhase where
  | outer
  | filling
  | finding
  | sleeping
  | joining
  | ended (outcome : Except RunError Nat)

/-- The run is over. -/
def SchedulerPhase.isEnded : SchedulerPhase → Bool
  | .ended _ => true
  | _ => false

/-- How a block task ends. -/
inductive BlockEnd where
  | done (md4 : Md4)
  | failed (e : DownloadError)
  | panicked
deriving DecidableEq

/-- A task joined: its block, its source, and whether the MD4 was the expected one. -/
abbrev Ready := Nat × Source × Except DownloadError Bool

/-- Whether the data of the blocks were synced, the hashset was saved and the rows written. -/
structure PersistAnswers where
  synced : Bool
  hashsetSaved : Bool
  rowsWritten : Bool

/-- What Kad finds. -/
inductive KadAnswer where
  | peers (found : List PeerAddr)
  | failed
  | cancelled

/-- `mod.rs:514–522`, with the state of the database and the user's number of slots. -/
structure Scheduler where
  segmentCount : Int
  rows : BlockRows
  storedHashset : Option (List UInt8)
  snapshot : BlockSnapshot
  hashsetCache : Option (List Md4)
  hashsetPersisted : Bool
  sources : List Source
  sourceRetries : Nat
  backoff : Finset Source
  lacks : Finset (Source × Nat)
  integrityBl : Finset Source
  strikes : Nat → Nat
  finalizeRetries : Nat
  roundRobin : Nat
  concurrency : Nat
  pending : List Nat
  running : List (Nat × Source)
  isCancelled : Bool
  phase : SchedulerPhase

/-- What happens to a download. -/
inductive SchedulerOp where
  /-- The download is cancelled. -/
  | cancel
  /-- The task of a block receives a hashset. -/
  | hashset (block : Nat) (hashes : List Digest)
  /-- The outer loop takes stock; what is on disk and what works if all blocks are marked. -/
  | takeStock (disk : List UInt8) (hashsetRead writes loads : Bool)
  /-- Free slots are filled. -/
  | fill
  /-- Servers and Kad answer. -/
  | find (config : Bool) (server : Option (List Source)) (kad : KadAnswer) (statusWritten : Bool)
  /-- The sleep is over. -/
  | wake
  /-- Tasks end; `unwritten` are the blocks whose row cannot be written after a mismatch. -/
  | join (ends : List (Nat × BlockEnd)) (persist : PersistAnswers) (unwritten : List Nat)

namespace Scheduler

variable (hashPart : List UInt8 → Md4) (file : Ed2kFile)

/-- The run is over. -/
def fail (s : Scheduler) (e : RunError) : Scheduler := { s with phase := .ended (.error e) }

/-- The state the scheduler starts in. A file without bytes needs no blocks.
`mod.rs:377–408`, `514–522`. -/
def start (segmentCount : Int) (rows : BlockRows) (storedHashset : Option (List UInt8))
    (answers : PrepareAnswers) : Scheduler :=
  let (rows, prepared) := prepareTempAndBlocks file rows answers
  { segmentCount, rows, storedHashset
    snapshot := match prepared with
      | .ok snapshot => snapshot
      | .error _ => BlockSnapshot.fromRows file []
    hashsetCache := none
    hashsetPersisted := false
    sources := []
    sourceRetries := 0
    backoff := ∅
    lacks := ∅
    integrityBl := ∅
    strikes := fun _ ↦ 0
    finalizeRetries := 0
    roundRobin := 0
    concurrency := 0
    pending := []
    running := []
    isCancelled := false
    phase := match prepared with
      | .error e => .ended (.error e)
      | .ok _ =>
        if file.totalBytes = 0 then
          if file.rootHash ≠ md4Empty then
            .ended (.error (.ed2kIntegrity "0-byte file root hash mismatch"))
          else .ended (.ok 0)
        else .outer }

/-- The errors of the final check. -/
def finalizeError : FinalizeError → RunError
  | .io => .io
  | .db => .db
  | .ed2k text => .ed2k text
  | .ed2kIntegrity text => .ed2kIntegrity text

/-- The outer loop: the blocks without a mark are to be fetched; if there are none the file is
checked, and where it is damaged the blocks are loaded again. `mod.rs:525–555`. -/
def takeStock (s : Scheduler) (disk : List UInt8) (hashsetRead writes loads : Bool) : Scheduler :=
  let pending := s.snapshot.pending
  if pending = [] then
    let hashset := if hashsetRead then .ok s.storedHashset else .error ()
    let (update, outcome) :=
      finalizeAndVerify hashPart hashset writes disk file.rootHash file.totalBytes file.partSize
    let s := { s with rows := s.rows.afterFinalize update }
    match outcome with
    | .ok () => { s with phase := .ended (.ok file.totalBytes) }
    | .error (.ed2kIntegrity text) =>
      if s.finalizeRetries < finalizeMaxRetries then
        if loads then
          { s with
            snapshot := BlockSnapshot.fromRows file s.rows.entries
            finalizeRetries := s.finalizeRetries + 1 }
        else s.fail .db
      else s.fail (.ed2kIntegrity text)
    | .error e => s.fail (finalizeError e)
  else
    let concurrency := ed2kConcurrency s.segmentCount pending.length
    { s with pending, concurrency, phase := .filling }

/-- The source may be asked for the block. `mod.rs:987–988`. -/
def usable (s : Scheduler) (block : Nat) (src : Source) : Bool :=
  src ∉ s.backoff ∧ src ∉ s.integrityBl ∧ (src, block) ∉ s.lacks

/-- The first of the blocks that has a source, by its position. `mod.rs:564–579`. -/
def pickBlock (s : Scheduler) : List Nat → Nat → Nat → Option (Nat × Source) × Nat
  | [], _, roundRobin => (none, roundRobin)
  | block :: blocks, pos, roundRobin =>
    match pickSource s.sources (s.usable block) s.sources.length roundRobin with
    | (some src, next) => (some (pos, src), next)
    | (none, next) => s.pickBlock blocks (pos + 1) next

/-- Fill the free slots; `fuel` is the number of blocks that wait. `mod.rs:561–625`. -/
def fillSlots : Nat → Scheduler → Scheduler
  | 0, s => s
  | fuel + 1, s =>
    if s.running.length < s.concurrency ∧ s.pending ≠ [] then
      match s.pickBlock (s.pending.take pickWindow) 0 s.roundRobin with
      | (none, roundRobin) => { s with roundRobin }
      | (some (pos, src), roundRobin) =>
        match s.pending[pos]? with
        | none => { s with roundRobin }
        | some block => fillSlots fuel { s with
            roundRobin
            pending := s.pending.eraseIdx pos
            running := s.running ++ [(block, src)] }
    else s

/-- The top of the inner loop. `mod.rs:557–630`. -/
def fill (s : Scheduler) : Scheduler :=
  if s.isCancelled then s.fail .cancelled
  else
    let s := fillSlots s.pending.length s
    if s.running = [] then
      if s.pending = [] then { s with phase := .outer } else { s with phase := .finding }
    else { s with phase := .joining }

/-- The sources of the servers, then those of Kad that are new. `mod.rs:669–702`. -/
def mergeSources (server : Option (List Source)) (found : List PeerAddr) : List Source :=
  found.foldl (fun merged peer ↦
      if .highId peer ∈ merged then merged else merged ++ [.highId peer])
    (server.getD [])

/-- Sources are asked for. `mod.rs:631–702`. -/
def find (s : Scheduler) (config : Bool) (server : Option (List Source)) (kad : KadAnswer)
    (statusWritten : Bool) : Scheduler :=
  if !config then s.fail .db
  else if s.isCancelled then s.fail .cancelled
  else
    match kad with
    | .cancelled => s.fail .cancelled
    | .failed => settle (server.getD [])
    | .peers found => settle (mergeSources server found)
where
  /-- What is not blacklisted is used. `mod.rs:703–746`. -/
  settle (merged : List Source) : Scheduler :=
    let kept := merged.filter (· ∉ s.integrityBl)
    let hadBlacklisted := kept.length < merged.length
    if kept ≠ [] then
      { s with sources := kept, backoff := ∅, lacks := ∅, sourceRetries := 0, phase := .filling }
    else
      let s := { s with sourceRetries := s.sourceRetries + 1 }
      if maxSourceRetries ≤ s.sourceRetries then
        s.fail (if hadBlacklisted then .ed2kIntegrity "all available sources served corrupt data"
          else .ed2k "no sources found for this ed2k file")
      else if !statusWritten then s.fail .db
      else { s with phase := .sleeping }

/-- The sleep is over, or it was cut short. `mod.rs:747–759`. -/
def wake (s : Scheduler) : Scheduler :=
  if s.isCancelled then s.fail .cancelled else { s with phase := .filling }

/-- A hashset that a task received: the first one that belongs to the root is kept.
`src/native/engine/src/ed2k/peer.rs:481–513`. -/
def anchor (s : Scheduler) (block : Nat) (hashes : List Digest) : Scheduler :=
  if s.hashsetCache = none ∧ block ∈ s.running.map Prod.fst ∧ file.isSingle = false then
    { s with
      hashsetCache := normalizeHashset hashPart (hashes.map Subtype.val) file.rootHash
        file.totalBytes file.partSize }
  else s

/-! ## Tasks that end -/

/-- Take the tasks that ended from those that run; a task that panicked leaves nothing.
`mod.rs:769–775`. -/
def takeEnded : List (Nat × Source) → List (Nat × BlockEnd) →
    List (Nat × Source) × List (Nat × Source × Except DownloadError Md4)
  | running, [] => (running, [])
  | running, (block, result) :: ends =>
    match running.find? (·.1 = block) with
    | none => takeEnded running ends
    | some task =>
      let (left, joined) := takeEnded (running.erase task) ends
      match result with
      | .done md4 => (left, (task.1, task.2, .ok md4) :: joined)
      | .failed e => (left, (task.1, task.2, .error e) :: joined)
      | .panicked => (left, joined)

/-- The MD4 is the expected one. `mod.rs:777–784`. -/
def checks (s : Scheduler) (index : Nat) (md4 : Md4) : Bool :=
  if file.isSingle then md4 = file.rootHash
  else s.hashsetCache.bind (·[index]?) = some md4

/-- `mod.rs:775–787`. -/
def check (s : Scheduler) : Nat × Source × Except DownloadError Md4 → Ready
  | (index, src, .ok md4) => (index, src, .ok (s.checks file index md4))
  | (index, src, .error e) => (index, src, .error e)

/-- The block arrived as it should be. -/
def isVerified : Ready → Bool
  | (_, _, .ok true) => true
  | _ => false

/-- The marks to be set. `mod.rs:789–797`. -/
def updates (ready : List Ready) : List (Nat × Int × Int × Bool) :=
  (ready.filter isVerified).map fun r ↦ (r.1, blockVerified, file.blockBytes r.1, false)

/-- Sync the data, save the hashset, write the rows. `mod.rs:172–192`. -/
def persistVerifiedBlocks (s : Scheduler) (blocks : List (Nat × Int × Int × Bool))
    (hashset : Option (List Md4)) (persist : PersistAnswers) : Scheduler × Option RunError :=
  if !persist.synced then (s, some .io)
  else if hashset.isSome ∧ !persist.hashsetSaved then (s, some .db)
  else
    let s := match hashset with
      | none => s
      | some hashes => { s with storedHashset := some hashes.flatten }
    if !persist.rowsWritten then (s, some .db)
    else ({ s with rows := s.rows.updateEd2kBlocks blocks }, none)

/-- Set the marks of the blocks that arrived. `mod.rs:798–821`. -/
def publish (s : Scheduler) (ready : List Ready) (persist : PersistAnswers) : Scheduler :=
  let blocks := updates file ready
  if blocks = [] then s
  else
    let hashset := if file.isSingle ∨ s.hashsetPersisted then none else s.hashsetCache
    match s.persistVerifiedBlocks blocks hashset persist with
    | (s, some e) => s.fail e
    | (s, none) => { s with
        hashsetPersisted := true
        snapshot := blocks.foldl (fun snapshot b ↦ snapshot.setVerified file b.1 true) s.snapshot }

/-- What a task that ended means for its block and its source. `mod.rs:822–916`. -/
def settleReady (unwritten : List Nat) (s : Scheduler) : Ready → Scheduler
  | (_, _, .ok true) => s
  | (block, src, .ok false) =>
    if block ∈ unwritten then s.fail .db
    else
      let s := { s with
        rows := s.rows.updateEd2kBlocks [(block, blockMissing, 0, true)]
        pending := s.pending ++ [block]
        strikes := Function.update s.strikes block (s.strikes block + 1)
        integrityBl := insert src s.integrityBl }
      if blockMaxRetries ≤ s.strikes block then
        s.fail (.ed2kIntegrity s!"block {block} irrecoverable after {blockMaxRetries} tries")
      else s
  | (block, src, .error e) =>
    if e = .cancelled then s.fail .cancelled
    else
      let s := { s with pending := s.pending ++ [block] }
      if e = .ed2k peerLacksBlock then { s with lacks := insert (src, block) s.lacks }
      else if e.isIntegrity then { s with integrityBl := insert src s.integrityBl }
      else { s with backoff := insert src s.backoff }

/-- Settle one after another until the run is over. `mod.rs:822–917`. -/
def settleAll (unwritten : List Nat) : Scheduler → List Ready → Scheduler
  | s, [] => s
  | s, r :: ready =>
    let s := settleReady unwritten s r
    if s.phase.isEnded then s else settleAll unwritten s ready

/-- Tasks end, those that are there at once together. `mod.rs:762–917`. -/
def join (s : Scheduler) (ends : List (Nat × BlockEnd)) (persist : PersistAnswers)
    (unwritten : List Nat) : Scheduler :=
  if s.isCancelled then s.fail .cancelled
  else
    let (running, joined) := takeEnded s.running ends
    let ready := joined.map (s.check file)
    let s := publish file { s with running, phase := .filling } ready persist
    if s.phase.isEnded then s else settleAll unwritten s ready

/-- One step of the scheduler; what does not fit where it is has no effect. -/
def step (s : Scheduler) (op : SchedulerOp) : Scheduler :=
  match op, s.phase with
  | _, .ended _ => s
  | .cancel, _ => { s with isCancelled := true }
  | .hashset block hashes, _ => s.anchor hashPart file block hashes
  | .takeStock disk hashsetRead writes loads, .outer =>
    s.takeStock hashPart file disk hashsetRead writes loads
  | .fill, .filling => s.fill
  | .find config server kad statusWritten, .finding => s.find config server kad statusWritten
  | .wake, .sleeping => s.wake
  | .join ends persist unwritten, .joining => s.join file ends persist unwritten
  | _, _ => s

end Scheduler

end Ed2k
