import FluxDown.Base.KeyedRows
import FluxDown.Base.Saturating

/-!
# The seeding manager

Library `Engine`. The active seeders and the queue that waits for a slot, with the counters
that each entry carries from one stint to the next. An `Instant` is its nanoseconds since some
start. The map of active seeders is the list of its rows in the order in which it iterates.
Each method holds the lock for its whole body and is one function here; the database is the
caller's, and the ledger counts what the manager has handed out and what was written.
-/

namespace Engine

open Base

/-- Nanoseconds in a second. -/
def nanosPerSec : Nat := 1000000000

/-- One actively seeding torrent.
`src/native/engine/src/bt_seeding.rs:293–315`. -/
structure SeedingEntry where
  seedTimeBaseSecs : Int
  stintStarted : Nat
  lastUploadInstant : Nat
  lastUploadedBytes : Int
  uploadedAtCompletion : Int
  lastSessionUploaded : Int
  unpersistedUpload : Int
deriving DecidableEq

/-- Whole seconds of the current stint. -/
def SeedingEntry.stintSecs (entry : SeedingEntry) (now : Nat) : Int :=
  ((now - entry.stintStarted) / nanosPerSec : Nat)

/-- Cumulative seeding seconds with the current stint. `bt_seeding.rs:320–323`. -/
def SeedingEntry.effectiveSeedTimeSecs (entry : SeedingEntry) (now : Nat) : Int :=
  saturatingAdd entry.seedTimeBaseSecs (entry.stintSecs now)

/-- The counter a delta starts from: a counter that went back starts a new baseline.
`bt_seeding.rs:600–603`. -/
def SeedingEntry.baseline (entry : SeedingEntry) (snapshotUploaded : Int) : Int :=
  if snapshotUploaded < entry.lastSessionUploaded then 0 else entry.lastSessionUploaded

/-- Bytes a counter adds. `bt_seeding.rs:604`. -/
def SeedingEntry.delta (entry : SeedingEntry) (snapshotUploaded : Int) : Int :=
  snapshotUploaded - entry.baseline snapshotUploaded

/-- The entry after a sample. `bt_seeding.rs:601–614`. -/
def SeedingEntry.sample (entry : SeedingEntry) (now : Nat)
    (snapshotUploaded uploadSpeedBps : Int) : SeedingEntry :=
  let delta := entry.delta snapshotUploaded
  { entry with
    lastSessionUploaded := snapshotUploaded
    unpersistedUpload := saturatingAdd entry.unpersistedUpload delta
    lastUploadInstant := if uploadSpeedBps > 0 ∨ delta > 0 then now else entry.lastUploadInstant }

/-- A completed torrent that waits for a slot. `bt_seeding.rs:345–349`. -/
structure QueuedSeed where
  uploadedAtCompletion : Int
  seedTimeBaseSecs : Int
deriving DecidableEq

/-- The entry of a seed that leaves the queue. `bt_seeding.rs:516–530`. -/
def QueuedSeed.activate (seed : QueuedSeed) (now : Nat) : SeedingEntry where
  seedTimeBaseSecs := seed.seedTimeBaseSecs
  stintStarted := now
  lastUploadInstant := now
  lastUploadedBytes := seed.uploadedAtCompletion
  uploadedAtCompletion := seed.uploadedAtCompletion
  lastSessionUploaded := 0
  unpersistedUpload := 0

/-- Outcome of `register`. `bt_seeding.rs:354–362`. -/
inductive SeedingRegistration where
  | activated
  | queued
  | alreadyPresent
deriving DecidableEq

/-- What `unregister` reports. `bt_seeding.rs:367–374`. -/
structure UnregisteredSeed where
  wasActive : Bool
  seedTimeSecs : Int
deriving DecidableEq

/-- The manager: rows under its lock and the cap. `bt_seeding.rs:395–407`. -/
structure SeedingManager where
  active : List (String × SeedingEntry)
  queued : List (String × QueuedSeed)
  cap : Nat

namespace SeedingManager

/-- `bt_seeding.rs:417–422`. -/
def new : SeedingManager := ⟨[], [], 0⟩

/-- `bt_seeding.rs:434–437`. -/
def hasFreeSlot (m : SeedingManager) : Bool := m.cap == 0 || m.active.length < m.cap

/-- The task is registered. -/
def contains (m : SeedingManager) (taskId : String) : Bool :=
  (lastRow? Prod.fst taskId m.active).isSome || m.queued.any (·.1 == taskId)

/-- Register a completed task as a seeder. `bt_seeding.rs:444–494`. -/
def register (m : SeedingManager) (now : Nat) (taskId : String)
    (uploadedAtCompletion lastSessionUploaded seedTimeBaseSecs : Int) :
    SeedingManager × SeedingRegistration :=
  if m.contains taskId then (m, .alreadyPresent)
  else if m.hasFreeSlot then
    let entry : SeedingEntry :=
      { seedTimeBaseSecs, stintStarted := now, lastUploadInstant := now,
        lastUploadedBytes := uploadedAtCompletion, uploadedAtCompletion, lastSessionUploaded,
        unpersistedUpload := 0 }
    ({ m with active := upsertRow Prod.fst (taskId, entry) m.active }, .activated)
  else
    ({ m with queued := m.queued ++ [(taskId, { uploadedAtCompletion, seedTimeBaseSecs })] },
      .queued)

/-- Promote while there is room: over the queue, the clock moving by a tick before each
reading. `bt_seeding.rs:510–536`. -/
def promote : List (String × QueuedSeed) → List Nat → Nat → SeedingManager → List String →
    SeedingManager × Nat × List String
  | [], _, now, m, activated => (m, now, activated)
  | (taskId, seed) :: queued, ticks, now, m, activated =>
    if m.hasFreeSlot then
      let now := now + ticks.headD 0
      promote queued ticks.tail now
        { m with
          active := upsertRow Prod.fst (taskId, seed.activate now) m.active
          queued }
        (activated ++ [taskId])
    else (m, now, activated)

/-- The row that `max_by_key` picks among the active ones: the last of those with the latest
stint. `bt_seeding.rs:544–548`. -/
def latest : List (String × SeedingEntry) → Option (String × SeedingEntry)
  | [] => none
  | row :: rows =>
    match latest rows with
    | none => some row
    | some best => if row.2.stintStarted ≤ best.2.stintStarted then some best else some row

/-- Put an active seeder in front of the queue. `bt_seeding.rs:552–563`. -/
def park (m : SeedingManager) (now : Nat) (row : String × SeedingEntry) : SeedingManager :=
  { m with
    active := m.active.filter fun other ↦ other.1 ∉ [row.1]
    queued := (row.1, { uploadedAtCompletion := row.2.uploadedAtCompletion
                        seedTimeBaseSecs := row.2.effectiveSeedTimeSecs now }) :: m.queued }

/-- Demote while over the cap, at most `fuel` times. `bt_seeding.rs:543–569`. -/
def demote (now : Nat) : Nat → SeedingManager → List (String × Int) →
    SeedingManager × List (String × Int)
  | 0, m, demoted => (m, demoted)
  | fuel + 1, m, demoted =>
    if m.cap < m.active.length then
      match latest m.active with
      | none => (m, demoted)
      | some row =>
        demote now fuel (m.park now row) (demoted ++ [(row.1, row.2.effectiveSeedTimeSecs now)])
    else (m, demoted)

/-- What `reconcile` leaves and returns: the clock moves by the ticks while it runs. -/
structure Reconciled where
  manager : SeedingManager
  now : Nat
  activated : List String
  demoted : List (String × Int)

/-- Rebalance active seeders against the cap. `bt_seeding.rs:503–573`. -/
def reconcile (m : SeedingManager) (now : Nat) (ticks : List Nat) : Reconciled :=
  let (promoted, now, activated) := promote m.queued ticks now m []
  if 0 < m.cap then
    let (manager, demoted) := demote now promoted.active.length promoted []
    { manager, now, activated, demoted }
  else { manager := promoted, now, activated, demoted := [] }

/-- Apply a fresh upload snapshot and return the delta it adds. `bt_seeding.rs:586–617`. -/
def applyUploadSnapshot (m : SeedingManager) (now : Nat) (taskId : String)
    (snapshotUploaded uploadSpeedBps : Int) : SeedingManager × Option Int :=
  if snapshotUploaded < 0 then (m, none)
  else match lastRow? Prod.fst taskId m.active with
    | none => (m, none)
    | some (_, entry) =>
      ({ m with
        active := modifyRow Prod.fst taskId
          (fun row ↦ (row.1, row.2.sample now snapshotUploaded uploadSpeedBps))
          m.active },
        some (entry.delta snapshotUploaded))

/-- Sampled bytes that are not in the database. `bt_seeding.rs:620–628`. -/
def unpersistedUploads (m : SeedingManager) : List (String × Int) :=
  (m.active.filter fun row ↦ row.2.unpersistedUpload ≠ 0).map
    fun row ↦ (row.1, row.2.unpersistedUpload)

/-- Take written bytes off. `bt_seeding.rs:632–639`. -/
def markUploadsPersisted (m : SeedingManager) (persisted : List (String × Int)) :
    SeedingManager :=
  { m with
    active := persisted.foldl
      (fun active item ↦ modifyRow Prod.fst item.1
        (fun row ↦ (row.1,
          { row.2 with unpersistedUpload := saturatingSub row.2.unpersistedUpload item.2 }))
        active)
      m.active }

/-- Remove an entry and report its seeding time. `bt_seeding.rs:643–656`. -/
def unregister (m : SeedingManager) (now : Nat) (taskId : String) :
    SeedingManager × Option UnregisteredSeed :=
  match lastRow? Prod.fst taskId m.active with
  | some (_, entry) =>
    ({ m with active := m.active.filter fun row ↦ row.1 ∉ [taskId] },
      some { wasActive := true, seedTimeSecs := entry.effectiveSeedTimeSecs now })
  | none =>
    match m.queued.find? (·.1 == taskId) with
    | none => (m, none)
    | some row =>
      ({ m with queued := m.queued.eraseP (·.1 == taskId) },
        some { wasActive := false, seedTimeSecs := row.2.seedTimeBaseSecs })

end SeedingManager

/-- Where a persist sequence is: rows read, rows written, finished or given up. -/
inductive PersistPhase where
  | taken
  | written
  | done
deriving DecidableEq

/-- One persist sequence: the bytes it took and how far it is.
`src/native/engine/src/download_manager.rs:6533–6566`. -/
structure Persist where
  uploads : List (String × Int)
  phase : PersistPhase
deriving DecidableEq

/-- What the manager has handed out and the database has taken, per task: sums of the deltas
returned and written, seconds of the base and the finished stints, and the moments of the last
registration and activation. -/
structure SeedingLedger where
  returned : String → Int
  written : String → Int
  stinted : String → Int
  registered : String → Nat
  activated : String → Nat
  moments : Nat

namespace SeedingLedger

/-- Nothing has happened. -/
def new : SeedingLedger := ⟨fun _ ↦ 0, fun _ ↦ 0, fun _ ↦ 0, fun _ ↦ 0, fun _ ↦ 0, 0⟩

/-- A registration with its base, the next moment. -/
def noteRegistered (l : SeedingLedger) (taskId : String) (base : Int) : SeedingLedger :=
  { l with
    registered := Function.update l.registered taskId l.moments
    stinted := Function.update l.stinted taskId base
    moments := l.moments + 1 }

/-- An activation, the next moment. -/
def noteActivated (l : SeedingLedger) (taskId : String) : SeedingLedger :=
  { l with
    activated := Function.update l.activated taskId l.moments
    moments := l.moments + 1 }

/-- A stint that ends at `now`, if the task is active. -/
def noteStint (l : SeedingLedger) (active : List (String × SeedingEntry)) (now : Nat)
    (taskId : String) : SeedingLedger :=
  match Base.lastRow? Prod.fst taskId active with
  | none => l
  | some row =>
    { l with
      stinted := Function.update l.stinted taskId (l.stinted taskId + row.2.stintSecs now) }

/-- A delta that was returned. -/
def noteReturned (l : SeedingLedger) (taskId : String) (delta : Int) : SeedingLedger :=
  { l with returned := Function.update l.returned taskId (l.returned taskId + delta) }

/-- Bytes that were written. -/
def noteWritten (l : SeedingLedger) (item : String × Int) : SeedingLedger :=
  { l with written := Function.update l.written item.1 (l.written item.1 + item.2) }

end SeedingLedger

/-- The manager with its callers: the clock, the persist sequences and the ledger. -/
structure SeedingSystem where
  manager : SeedingManager
  now : Nat
  persists : List Persist
  ledger : SeedingLedger

namespace SeedingSystem

/-- A new manager. -/
def new (now : Nat) : SeedingSystem := ⟨.new, now, [], .new⟩

/-- What callers and the environment do; session counters are not negative. -/
inductive Op where
  | register (taskId : String) (uploadedAtCompletion : Int) (lastSessionUploaded : Nat)
      (seedTimeBaseSecs : Int)
  | setCap (cap : Nat)
  | reconcile (ticks : List Nat)
  | applyUploadSnapshot (taskId : String) (snapshotUploaded : Nat) (uploadSpeedBps : Int)
  | unpersistedUploads (rows : List String)
  | writeUploads (persist : Nat)
  | failUploads (persist : Nat)
  | markUploadsPersisted (persist : Nat)
  | unregister (taskId : String)
  | clock (nanos : Nat)
  | rehash (active : List (String × SeedingEntry))

/-- A registration at the present moment. -/
def register (s : SeedingSystem) (taskId : String)
    (uploadedAtCompletion lastSessionUploaded seedTimeBaseSecs : Int) : SeedingSystem :=
  let (manager, outcome) := s.manager.register s.now taskId uploadedAtCompletion
    lastSessionUploaded seedTimeBaseSecs
  match outcome with
  | .alreadyPresent => s
  | .queued =>
    { s with manager, ledger := s.ledger.noteRegistered taskId seedTimeBaseSecs }
  | .activated =>
    { s with
      manager
      ledger := (s.ledger.noteRegistered taskId seedTimeBaseSecs).noteActivated taskId }

/-- A reconciliation; the ledger notes the activations and the stints that end. -/
def reconcile (s : SeedingSystem) (ticks : List Nat) : SeedingSystem :=
  let after := s.manager.reconcile s.now ticks
  { s with
    manager := after.manager
    now := after.now
    ledger := (after.demoted.map Prod.fst).foldl
      (fun ledger taskId ↦ ledger.noteStint s.manager.active after.now taskId)
      (after.activated.foldl SeedingLedger.noteActivated s.ledger) }

/-- A sample of a session counter. -/
def applyUploadSnapshot (s : SeedingSystem) (taskId : String) (snapshotUploaded : Nat)
    (uploadSpeedBps : Int) : SeedingSystem :=
  let (manager, delta) := s.manager.applyUploadSnapshot s.now taskId snapshotUploaded
    uploadSpeedBps
  { s with manager, ledger := s.ledger.noteReturned taskId (delta.getD 0) }

/-- Start a persist sequence with the tasks whose rows were read. -/
def unpersistedUploads (s : SeedingSystem) (rows : List String) : SeedingSystem :=
  let uploads := s.manager.unpersistedUploads.filter fun item ↦ item.1 ∈ rows
  { s with persists := s.persists ++ [{ uploads, phase := .taken }] }

/-- Move a persist sequence on. -/
def setPhase (s : SeedingSystem) (persist : Nat) (phase : PersistPhase) : SeedingSystem :=
  { s with persists := s.persists.modify persist fun p ↦ { p with phase } }

/-- The database takes the bytes of a sequence. `src/native/engine/src/db.rs:2170–2204`. -/
def writeUploads (s : SeedingSystem) (persist : Nat) : SeedingSystem :=
  match s.persists[persist]? with
  | some ⟨uploads, .taken⟩ =>
    { s.setPhase persist .written with
      ledger := uploads.foldl SeedingLedger.noteWritten s.ledger }
  | _ => s

/-- The database refuses the bytes of a sequence: nothing is marked. -/
def failUploads (s : SeedingSystem) (persist : Nat) : SeedingSystem :=
  match s.persists[persist]? with
  | some ⟨_, .taken⟩ => s.setPhase persist .done
  | _ => s

/-- The written bytes of a sequence are taken off. -/
def markUploadsPersisted (s : SeedingSystem) (persist : Nat) : SeedingSystem :=
  match s.persists[persist]? with
  | some ⟨uploads, .written⟩ =>
    { s.setPhase persist .done with
      manager := s.manager.markUploadsPersisted uploads }
  | _ => s

/-- A task leaves. -/
def unregister (s : SeedingSystem) (taskId : String) : SeedingSystem :=
  { s with
    manager := (s.manager.unregister s.now taskId).1
    ledger := s.ledger.noteStint s.manager.active s.now taskId }

/-- One operation; each takes the lock once. -/
def step (s : SeedingSystem) : Op → SeedingSystem
  | .register taskId uploaded counter base => s.register taskId uploaded counter base
  | .setCap cap => { s with manager := { s.manager with cap } }
  | .reconcile ticks => s.reconcile ticks
  | .applyUploadSnapshot taskId counter speed => s.applyUploadSnapshot taskId counter speed
  | .unpersistedUploads rows => s.unpersistedUploads rows
  | .writeUploads persist => s.writeUploads persist
  | .failUploads persist => s.failUploads persist
  | .markUploadsPersisted persist => s.markUploadsPersisted persist
  | .unregister taskId => s.unregister taskId
  | .clock nanos => { s with now := s.now + nanos }
  | .rehash active =>
    if active.Perm s.manager.active then { s with manager := { s.manager with active } } else s

end SeedingSystem

end Engine
