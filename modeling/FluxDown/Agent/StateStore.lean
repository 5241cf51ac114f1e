import Mathlib

/-!
# The store of the agent's state

Library `Agent`. Concurrent callers serialise snapshots, take a generation for each and write
them one after another through a temporary file that is renamed over `agent-state.json`. The
generation of the newest written snapshot is also the write lock. A gateway change reads the
file first and writes these bytes back when one of its own writes fails; the state lock, which
its caller holds, keeps out `persist` but not `save`. Any step on a file may fail, the last one
after the rename.
-/

namespace Agent

/-- Contents of a file. -/
abbrev Bytes := List UInt8

/-- How a step on a file ends: a write may also fail after its rename. -/
inductive Io where
  | ok
  | failed
  | failedAfterRename
deriving DecidableEq

/-- What a write puts in place: a serialised snapshot, or what the file held before a gateway
change, with the generation of the snapshot that this was. -/
inductive WriteKind where
  | snapshot
  | rollback (held : Option Nat)
deriving DecidableEq

/-- Where a write is: waiting for the lock, holding it, renamed or returned. -/
inductive WritePhase where
  | waiting
  | locked
  | renamed
  | returned (ok : Bool)
deriving DecidableEq

/-- A write of the state file; no content stands for a file that is to be removed. -/
structure Write where
  generation : Nat
  content : Option Bytes
  kind : WriteKind
  phase : WritePhase
deriving DecidableEq

/-- The write holds the lock. -/
def Write.busy (w : Write) : Bool := w.phase == .locked || w.phase == .renamed

/-- The snapshot is acknowledged. -/
def Write.acked (w : Write) : Bool := w.kind == .snapshot && w.phase == .returned true

/-- What a gateway change has read: the two files and the generation in the first. -/
structure Saved where
  state : Option Bytes
  held : Option Nat
  endpoint : Option Bytes
deriving DecidableEq

/-- Where a gateway change is. `src/native/agent/src/state.rs:378–424`. -/
inductive ChangePhase where
  | readState
  | readEndpoint (state : Option Bytes) (held : Option Nat)
  | saveEndpoint (old : Saved)
  | saveState (old : Saved)
  | saving (old : Saved) (write : Nat)
  | undoEndpoint (old : Saved)
  | undoState (old : Saved)
  | undoing (write : Nat)
deriving DecidableEq

/-- A gateway change: its snapshot and the endpoint it publishes. -/
structure Change where
  state : Bytes
  endpoint : Bytes
  phase : ChangePhase
deriving DecidableEq

/-- The store with its files, its writes and the gateway change under way. `held` is the
generation of the snapshot in the file, and `fence` what the last rollback put there, if a
rollback was the last to set `written`. `state.rs:204–215`. -/
structure StateStore where
  file : Option Bytes
  endpoint : Option Bytes
  generation : Nat
  written : Nat
  writes : List Write
  change : Option Change
  held : Option Nat
  fence : Option (Option Nat)

namespace StateStore

/-- The store over the files as they are found. `state.rs:228–262`. -/
def new (file endpoint : Option Bytes) : StateStore where
  file
  endpoint
  generation := 1
  written := 0
  writes := []
  change := none
  held := none
  fence := none

/-- A write takes the next generation and waits. -/
def enqueue (s : StateStore) (content : Option Bytes) (kind : WriteKind) : StateStore :=
  { s with
    generation := s.generation + 1
    writes := s.writes ++ [{ generation := s.generation, content, kind, phase := .waiting }] }

/-- Move a write on. -/
def setPhase (s : StateStore) (n : Nat) (phase : WritePhase) : StateStore :=
  { s with writes := s.writes.modify n fun w ↦ { w with phase } }

/-- Serialise a snapshot. `state.rs:338–342`. -/
def save (s : StateStore) (bytes : Bytes) : StateStore := s.enqueue (some bytes) .snapshot

/-- Serialise a snapshot under the state lock. `state.rs:345–352`. -/
def persist (s : StateStore) (bytes : Bytes) : StateStore :=
  if s.change.isNone then s.save bytes else s

/-- A write takes the lock when nobody holds it; a snapshot older than the written one is done.
`state.rs:442–443, 452–457`. -/
def lock (s : StateStore) (n : Nat) : StateStore :=
  match s.writes[n]? with
  | some { generation, kind, phase := .waiting, .. } =>
    if s.writes.any Write.busy then s
    else if kind = .snapshot ∧ generation < s.written then s.setPhase n (.returned true)
    else s.setPhase n .locked
  | _ => s

/-- The temporary file is written and renamed over the state file, or one of these steps fails.
`state.rs:467–509`. -/
def rename (s : StateStore) (n : Nat) (ok : Bool) : StateStore :=
  match s.writes[n]? with
  | some { generation, content, kind, phase := .locked } =>
    if ok then
      { s.setPhase n .renamed with
        file := content
        held := match kind with
          | .snapshot => some generation
          | .rollback held => held }
    else s.setPhase n (.returned false)
  | _ => s

/-- The directory is synced and the generation recorded, or the write fails after its rename.
`state.rs:444–448, 458–464`. -/
def finish (s : StateStore) (n : Nat) (ok : Bool) : StateStore :=
  match s.writes[n]? with
  | some { generation, kind, phase := .renamed, .. } =>
    if ok then
      { s.setPhase n (.returned true) with
        written := generation
        fence := match kind with
          | .snapshot => none
          | .rollback held => some held }
    else s.setPhase n (.returned false)
  | _ => s

/-- A gateway change starts when the state lock is free. -/
def saveGatewayChange (s : StateStore) (state endpoint : Bytes) : StateStore :=
  if s.change.isNone then { s with change := some { state, endpoint, phase := .readState } } else s

/-- The endpoint file after a write of it. -/
def endpointAfter (s : StateStore) (content : Option Bytes) : Io → Option Bytes
  | .failed => s.endpoint
  | .ok | .failedAfterRename => content

/-- The change goes on in another phase. -/
def moveTo (s : StateStore) (c : Change) (phase : ChangePhase) : StateStore :=
  { s with change := some { c with phase } }

/-- The change returns and its caller gives the state lock back. -/
def release (s : StateStore) : StateStore := { s with change := none }

/-- The next step of the gateway change. `state.rs:354–374, 378–450`. -/
def advance (s : StateStore) (io : Io) : StateStore :=
  match s.change with
  | none => s
  | some c =>
    match c.phase with
    | .readState => if io = .ok then s.moveTo c (.readEndpoint s.file s.held) else s.release
    | .readEndpoint state held =>
      if io = .ok then s.moveTo c (.saveEndpoint { state, held, endpoint := s.endpoint })
      else s.release
    | .saveEndpoint old =>
      { s with endpoint := s.endpointAfter (some c.endpoint) io }.moveTo c
        (if io = Io.ok then .saveState old else .undoEndpoint old)
    | .saveState old =>
      if io = .ok then (s.save c.state).moveTo c (.saving old s.writes.length)
      else s.moveTo c (.undoEndpoint old)
    | .saving old n =>
      match (s.writes[n]?).map Write.phase with
      | some (.returned true) => s.release
      | some (.returned false) => s.moveTo c (.undoEndpoint old)
      | _ => s
    | .undoEndpoint old =>
      { s with endpoint := s.endpointAfter old.endpoint io }.moveTo c (.undoState old)
    | .undoState old =>
      if io = .ok then
        if s.file = old.state then s.release
        else (s.enqueue old.state (.rollback old.held)).moveTo c (.undoing s.writes.length)
      else s.release
    | .undoing n =>
      match (s.writes[n]?).map Write.phase with
      | some (.returned _) => s.release
      | _ => s

/-- What callers and the file system do. -/
inductive Op where
  | save (bytes : Bytes)
  | persist (bytes : Bytes)
  | saveGatewayChange (state endpoint : Bytes)
  | advance (io : Io)
  | lock (write : Nat)
  | rename (write : Nat) (ok : Bool)
  | finish (write : Nat) (ok : Bool)
deriving DecidableEq

/-- One step. -/
def step (s : StateStore) : Op → StateStore
  | .save bytes => s.save bytes
  | .persist bytes => s.persist bytes
  | .saveGatewayChange state endpoint => s.saveGatewayChange state endpoint
  | .advance io => s.advance io
  | .lock n => s.lock n
  | .rename n ok => s.rename n ok
  | .finish n ok => s.finish n ok

end StateStore

end Agent
