import FluxDown.Base.Run
import FluxDown.Base.SortedMap

/-!
# File sync gate

Library `Engine`. The workers of one file share a gate that merges their `fdatasync` calls.
The gate remembers the start instant of the last completed sync; a worker that flushed its
buffer and then read the clock trusts that sync when it started no earlier. The model keeps
the clock, the gate, the one sync in flight and the writers, each at the await point it has
reached; `captured` and `completed` are ghosts that record what every sync has put on disk.
Clock readings are nanoseconds of a monotonic clock, which may read the same value twice.
-/

namespace Engine.SyncGate

open Base

/-- Smallest distance of background syncs, in nanoseconds
(`src/native/engine/src/segment_coordinator.rs:993`). -/
def minSyncGap : Nat := 2 * 10 ^ 9

/-- Seconds between two periodic persistence passes (`segment_coordinator.rs:895`). -/
def dbSaveIntervalSecs : Nat := 3

/-- Shared state of the gate (`segment_coordinator.rs:1030–1038`). -/
structure GateState where
  /-- A sync is in progress. -/
  syncing : Bool
  /-- Start of the last completed sync. -/
  lastCompletedStart : Option Nat
  /-- Failure of a background sync. -/
  failure : Option String
deriving DecidableEq, Repr

/-- A gate no sync has passed (`segment_coordinator.rs:1041–1050`). -/
def GateState.new : GateState := ⟨false, none, none⟩

/-- Flushed bytes by writer at the moment a sync began. -/
abbrev Captured := SortedMap Nat Int

/-- A sync in flight. -/
structure Fsync where
  /-- The writer that waits for it, none for a background sync. -/
  owner : Option Nat
  /-- Start instant, once read. -/
  start : Option Nat
  /-- What the sync persists, once begun. -/
  captured : Option Captured

/-- A sync that completed successfully. -/
structure CompletedSync where
  /-- Start instant. -/
  start : Nat
  /-- What it persisted. -/
  captured : Captured

/-- Where a writer stands (`segment_coordinator.rs:6282–6551`). -/
inductive WriterPhase where
  /-- Reading the response and writing chunks. -/
  | streaming
  /-- Periodic pass: buffer flushed. -/
  | flushed
  /-- Periodic pass: offset and clock read. -/
  | snapped (snap : Int) (snapT : Nat)
  /-- Periodic pass: watermark updated from `prevDurable`. -/
  | committed (prevDurable : Int)
  /-- Periodic pass: background sync offered. -/
  | kicked (prevDurable : Int)
  /-- Completion: buffer flushed. -/
  | finalFlushed
  /-- Completion: waiting for a sync that covers `snapT`. -/
  | covering (snapT : Nat)
  /-- Completion: running a sync of its own. -/
  | owning (snapT : Nat)
  /-- Completion: covered, about to record the offset. -/
  | covered
  /-- Returned. -/
  | finished
deriving DecidableEq, Repr

/-- One call of `do_segment` (`segment_coordinator.rs:6245–6257`). -/
structure Writer where
  /-- Segment being downloaded. -/
  segIndex : Int
  /-- Bytes of the segment written to the buffer or before. -/
  segDownloaded : Int
  /-- Bytes of the segment that left the buffer. -/
  flushed : Int
  /-- Offset known to be durable. -/
  durableOffset : Int
  /-- Oldest snapshot not yet covered. -/
  pendingSnap : Option (Int × Nat)
  /-- Clock reading of the last periodic pass. -/
  lastDbSave : Nat
  /-- Position in the code. -/
  phase : WriterPhase
deriving DecidableEq, Repr

/-- All workers of one file. -/
structure System where
  /-- Current clock reading. -/
  clock : Nat
  /-- The gate. -/
  gate : GateState
  /-- The sync in flight. -/
  inFlight : Option Fsync
  /-- Calls of `do_segment`, never reused. -/
  writers : SortedMap Nat Writer
  /-- Offsets handed to the coordinator, by segment. -/
  durableProgress : SortedMap Int Int
  /-- Every offset recorded so far, with its writer: inserted by a periodic pass or written at
  completion. -/
  recorded : List (Nat × Int)
  /-- Syncs that completed successfully. -/
  completed : List CompletedSync

/-- Actions of a writer. -/
inductive WriterAction where
  /-- Buffer `n` more bytes. -/
  | write (n : Int)
  /-- The buffer spills up to offset `n`. -/
  | spill (n : Int)
  /-- Begin a periodic pass by flushing. -/
  | beginPass
  /-- Read offset and clock. -/
  | snapshot
  /-- Update watermark and pending snapshot. -/
  | commit
  /-- Offer a background sync. -/
  | kick
  /-- Hand the watermark over if it moved. -/
  | insert
  /-- End of stream: flush. -/
  | endStream
  /-- Read the clock for the completion sync. -/
  | finalSnapshot
  /-- One round of `sync_covering`. -/
  | cover
  /-- Record the completed offset. -/
  | complete
deriving DecidableEq, Repr

/-- One action of the system. -/
inductive Action where
  /-- The clock advances. -/
  | tick (n : Nat)
  /-- A new call of `do_segment`. -/
  | spawn (w : Nat) (segIndex downloaded : Int)
  /-- The sync in flight reads its start instant. -/
  | fsyncStart
  /-- `fdatasync` begins. -/
  | fsyncBegin
  /-- `fdatasync` returns; a panic counts as an error. -/
  | fsyncComplete (error : Option String)
  /-- Writer `w` acts. -/
  | writer (w : Nat) (a : WriterAction)
deriving DecidableEq, Repr

/-- The last completed sync started at `t` or later. -/
def GateState.covers (g : GateState) (t : Nat) : Bool :=
  match g.lastCompletedStart with
  | some s => t ≤ s
  | none => false

/-- A background sync may start (`segment_coordinator.rs:1079–1090`). -/
def GateState.mayKick (g : GateState) (now : Nat) : Bool :=
  !g.syncing && match g.lastCompletedStart with
    | some s => minSyncGap ≤ now - s
    | none => true

/-- Replace a writer. -/
def System.setWriter (s : System) (w : Nat) (writer : Writer) : System :=
  { s with writers := s.writers.insert w writer }

/-- Take the gate for a new sync. -/
def System.takeGate (s : System) (owner : Option Nat) : System :=
  { s with
    gate := { s.gate with syncing := true }
    inFlight := some ⟨owner, none, none⟩ }

/-- Watermark and pending snapshot after a pass (`segment_coordinator.rs:6421–6428`). -/
def Writer.commit (writer : Writer) (gate : GateState) (snap : Int) (snapT : Nat) : Writer :=
  match writer.pendingSnap with
  | some (off, t) =>
    if gate.covers t then { writer with durableOffset := off, pendingSnap := some (snap, snapT) }
    else writer
  | none => { writer with pendingSnap := some (snap, snapT) }

/-- One action of writer `w`, in the state it requires. -/
def System.write (s : System) (w : Nat) (writer : Writer) : WriterAction → System
  | .write n =>
    if writer.phase = .streaming ∧ 0 ≤ n then
      s.setWriter w { writer with segDownloaded := writer.segDownloaded + n }
    else s
  | .spill n =>
    if writer.flushed ≤ n ∧ n ≤ writer.segDownloaded then
      s.setWriter w { writer with flushed := n }
    else s
  -- A failed background sync ends the worker before it flushes.
  | .beginPass =>
    if writer.phase = .streaming ∧
        dbSaveIntervalSecs ≤ (s.clock - writer.lastDbSave) / 10 ^ 9 then
      if s.gate.failure.isSome then s.setWriter w { writer with phase := .finished }
      else s.setWriter w { writer with flushed := writer.segDownloaded, phase := .flushed }
    else s
  | .snapshot =>
    if writer.phase = .flushed then
      s.setWriter w { writer with phase := .snapped writer.segDownloaded s.clock }
    else s
  | .commit => match writer.phase with
    | .snapped snap snapT =>
      s.setWriter w
        { writer.commit s.gate snap snapT with phase := .committed writer.durableOffset }
    | _ => s
  | .kick => match writer.phase with
    | .committed prevDurable =>
      let s := s.setWriter w { writer with phase := .kicked prevDurable }
      if s.gate.mayKick s.clock then s.takeGate none else s
    | _ => s
  | .insert => match writer.phase with
    | .kicked prevDurable =>
      let s := s.setWriter w { writer with phase := .streaming, lastDbSave := s.clock }
      if writer.durableOffset ≠ prevDurable then
        { s with
          durableProgress := s.durableProgress.insert writer.segIndex writer.durableOffset
          recorded := (w, writer.durableOffset) :: s.recorded }
      else s
    | _ => s
  | .endStream =>
    if writer.phase = .streaming then
      s.setWriter w { writer with flushed := writer.segDownloaded, phase := .finalFlushed }
    else s
  | .finalSnapshot =>
    if writer.phase = .finalFlushed then
      s.setWriter w { writer with phase := .covering s.clock }
    else s
  | .cover => match writer.phase with
    | .covering snapT =>
      if s.gate.covers snapT then s.setWriter w { writer with phase := .covered }
      else if s.gate.syncing then s
      else (s.setWriter w { writer with phase := .owning snapT }).takeGate (some w)
    | _ => s
  | .complete =>
    if writer.phase = .covered then
      { s.setWriter w { writer with phase := .finished } with
        recorded := (w, writer.segDownloaded) :: s.recorded }
    else s

/-- Flushed bytes of every writer. -/
def System.flushedBytes (s : System) : Captured := s.writers.mapValues fun _ writer ↦ writer.flushed

/-- The sync in flight returns (`segment_coordinator.rs:1098–1110`, `1141–1158`). -/
def System.completeSync (s : System) (f : Fsync) (start : Nat) (captured : Captured)
    (error : Option String) : System :=
  let s := { s with inFlight := none }
  let settled := match error with
    | none =>
      { s with
        gate := { s.gate with syncing := false, lastCompletedStart := some start }
        completed := ⟨start, captured⟩ :: s.completed }
    | some message =>
      { s with
        gate := { s.gate with
          syncing := false
          failure := if f.owner.isNone then some message else s.gate.failure } }
  match f.owner with
  | none => settled
  | some w =>
    { settled with
      writers := s.writers.modify w fun writer ↦
        { writer with phase := if error.isNone then .covered else .finished } }

/-- One step of the system. -/
def System.step (s : System) : Action → System
  | .tick n => { s with clock := s.clock + n }
  | .spawn w segIndex downloaded => match s.writers.get? w with
    | some _ => s
    | none => s.setWriter w
      { segIndex := segIndex
        segDownloaded := downloaded
        flushed := downloaded
        durableOffset := downloaded
        pendingSnap := none
        lastDbSave := s.clock
        phase := .streaming }
  | .fsyncStart => match s.inFlight with
    | some ⟨owner, none, captured⟩ => { s with inFlight := some ⟨owner, some s.clock, captured⟩ }
    | _ => s
  | .fsyncBegin => match s.inFlight with
    | some ⟨owner, some start, none⟩ =>
      { s with inFlight := some ⟨owner, some start, some s.flushedBytes⟩ }
    | _ => s
  | .fsyncComplete error => match s.inFlight with
    | some f => match f.start, f.captured with
      | some start, some captured => s.completeSync f start captured error
      | _, _ => s
    | none => s
  | .writer w a => match s.writers.get? w with
    | some writer => s.write w writer a
    | none => s

/-- A file without workers. -/
def System.new : System where
  clock := 0
  gate := GateState.new
  inFlight := none
  writers := SortedMap.empty
  durableProgress := SortedMap.empty
  recorded := []
  completed := []

/-! ## Specification -/

/-- The capture includes the first `off` bytes of writer `w`. -/
def Captured.Covers (c : Captured) (w : Nat) (off : Int) : Prop :=
  ∃ n, c.get? w = some n ∧ off ≤ n

/-- A sync that began after `off` bytes of writer `w` were flushed has completed. -/
def System.Durable (s : System) (w : Nat) (off : Int) : Prop :=
  ∃ c ∈ s.completed, c.captured.Covers w off

/-- No sync that has begun without the first `off` bytes of writer `w` reads as started now. -/
def System.ClockSeparates (s : System) (w : Nat) (off : Int) : Prop :=
  (∀ c ∈ s.completed, c.start = s.clock → c.captured.Covers w off) ∧
    ∀ f, s.inFlight = some f → f.start = some s.clock → ∀ captured,
      f.captured = some captured → captured.Covers w off

/-- Whenever a writer reads the clock for a snapshot, the reading is later than the start of
every sync that began before the writer's flush. -/
def Action.Separated (s : System) (a : Action) : Prop :=
  ∀ w writer, a = .writer w .snapshot ∨ a = .writer w .finalSnapshot →
    s.writers.get? w = some writer → s.ClockSeparates w writer.segDownloaded

end Engine.SyncGate
