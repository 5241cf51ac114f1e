import FluxDown.Agent.SettingsState

/-!
# The config sync

Library `Agent`. One sync runs at a time: it pulls, applies what came, pushes what is dirty in
batches, applies the conflicts of each batch and stores a watermark. Between its lock sections
edits are recorded, settings leave and join the sync, sessions end, and the daemon's
configuration, which is patched by comparing revisions, is published with a delay. A step is one
lock section or one answer; the answers of the cloud are inputs. `edits` remembers the last edit
recorded for each key.
-/

namespace Agent

open Base

variable {V : Type}

/-- The answer to a pull; `none` stands for an item that does not parse. `sync.rs:74–80`. -/
structure PullResult (V : Type) where
  revision : Nat
  resync : Bool
  items : List (Option (SyncItem V))

/-- The answer to a push. `sync.rs:697–712`. -/
structure PushResult (V : Type) where
  revision : Option Nat
  conflicts : List (Option (SyncItem V))

/-- The daemon's configuration, or the copy of it that the agent was sent. -/
structure DaemonConfig where
  revision : Nat
  values : SortedMap String String

/-- A patch that compares the revision first.
`src/native/engine/src/db.rs:3136–3185`. -/
def DaemonConfig.patch (d : DaemonConfig) (expected : Nat) (values : SortedMap String String) :
    Option DaemonConfig :=
  if d.revision = expected then
    some { revision := d.revision + 1, values := d.values.insertAll values.entries }
  else none

/-- A call of `patch_daemon`. `sync.rs:791–825`. -/
structure ConfigPatch where
  values : SortedMap String String
  expected : Nat
  retried : Bool

/-- One attempt: the daemon afterwards, and the call if it tries again, or whether it is through. -/
def ConfigPatch.attempt (p : ConfigPatch) (d : DaemonConfig) :
    DaemonConfig × (ConfigPatch ⊕ Bool) :=
  match d.patch p.expected p.values with
  | some d => (d, .inr true)
  | none =>
    if p.retried then (d, .inr false)
    else (d, .inl { p with expected := d.revision, retried := true })

/-- What a sync has found out so far. `sync.rs:640–760`. -/
structure SyncWork (V : Type) where
  since : Nat
  firstSync : Bool
  noPulledItems : Bool
  pullRevision : Nat
  prefsChanged : Bool
  /-- There was something to push. -/
  pushes : Bool
  batches : List (List (String × SyncEntry V))
  watermark : Option Nat

/-- Where a sync is: what it waits for, or the lock section it is about to enter. -/
inductive SyncPhase (V : Type) where
  | pull (since : Nat) (firstSync : Bool)
  | apply (since : Nat) (firstSync : Bool) (pull : PullResult V)
      (currentDaemon : SortedMap String String)
  | patch (work : SyncWork V) (patch : ConfigPatch)
  | push (work : SyncWork V)
  | settle (work : SyncWork V) (batch : List (String × SyncEntry V)) (revision : Nat)
      (conflicts : List (SyncItem V))
  | finish (work : SyncWork V) (idle : Bool)
  | persist

/-- A sync under way. -/
structure SyncRun (V : Type) where
  epoch : Nat
  uid : String
  phase : SyncPhase V

/-- A call of `mark_local`: it patches the daemon first, if the daemon keeps the setting. -/
structure MarkCall (V : Type) where
  epoch : Nat
  key : String
  owner : SyncOwner
  value : V
  wire : V
  deleted : Bool
  patch : Option ConfigPatch

/-- An edit that `mark_local` recorded, the preference that belongs to it, and whether the cloud
has answered a push of it. -/
structure Edit (V : Type) where
  value : V
  deleted : Bool
  editedAtMs : Int
  owner : SyncOwner
  preference : Option V
  answered : Bool
deriving DecidableEq

/-- The service with the session, the daemon and the calls under way. -/
structure SyncService (V : Type) where
  state : AgentState V
  epoch : Nat
  userId : Option String
  daemon : DaemonConfig
  published : DaemonConfig
  run : Option (SyncRun V)
  calls : List (MarkCall V)
  lastResult : Option (Except SyncError Unit)
  edits : String → Option (Edit V)

/-- What happens next. -/
inductive SyncOp (V : Type) where
  | login (uid : String)
  | logout
  | setEnabled (enabled : Bool)
  | setLocalOnly (keys : List String) (localOnly : Bool)
  | setLocalPreference (key : String) (value : V) (deleted : Bool)
  | mark (key : String) (value : V) (deleted : Bool)
  | markPatch (call : Nat) (reached : Bool)
  | markRecord (call : Nat) (now : Int)
  | publish
  | patchDaemon (values : SortedMap String String)
  | forceFullPull
  | recordError (e : SyncError)
  | begin
  | pulled (answer : PullResult V)
  | apply
  | patched (reached : Bool)
  | pushed (answer : PushResult V)
  | settle
  | store
  | finish
  | persisted (ok : Bool)
  | failed (e : SyncError)

namespace SyncService

variable [DecidableEq V] (catalog : SettingCatalog V)

section Calls

/-- Switch the account; its edits go with its data. -/
def bindAccount (s : SyncService V) (uid : Option String) : SyncService V :=
  { s with
    state := s.state.bindAccount uid
    edits := if s.state.accountUid = uid then s.edits else fun _ ↦ none }

/-- `src/native/agent/src/cloud/client.rs:336–366`. -/
def login (s : SyncService V) (uid : String) : SyncService V :=
  { s with epoch := s.epoch + 1, userId := some uid }.bindAccount (some uid)

/-- `client.rs:483–510`. -/
def logout (s : SyncService V) : SyncService V :=
  { s with epoch := s.epoch + 1, userId := none }.bindAccount none

/-- Settings leave the sync, or join it again. `sync.rs:178–225`. -/
def setLocalOnly (s : SyncService V) (keys : List String) (localOnly : Bool) : SyncService V :=
  if keys.any fun key ↦ catalog.ownerForKey key = .excluded then s
  else if localOnly then
    { s with
      state := { s.state with
        localOnlyKeys := s.state.localOnlyKeys ∪ keys
        entries := s.state.entries.mapValues fun key entry ↦
          if catalog.syncScopeKey key ∈ keys then { entry with dirty := false } else entry }
      edits := fun key ↦ if catalog.syncScopeKey key ∈ keys then none else s.edits key }
  else
    let rejoined := keys.any fun key ↦ key ∈ s.state.localOnlyKeys
    { s with
      state := { s.state with
        localOnlyKeys := s.state.localOnlyKeys.filter fun key ↦ key ∉ keys
        revision := if rejoined then 0 else s.state.revision
        syncPulled := s.state.syncPulled && !rejoined } }

/-- A preference as it is after an edit. -/
def writePreference (state : AgentState V) (key : String) (value : V) (deleted : Bool) :
    AgentState V :=
  { state with
    preferences :=
      if deleted then state.preferences.erase key else state.preferences.insert key value
    preferencesRevision := state.preferencesRevision + 1 }

/-- A preference outside the sync. `sync.rs:902–922`. -/
def setLocalPreference (s : SyncService V) (key : String) (value : V) (deleted : Bool) :
    SyncService V :=
  { s with
    state := writePreference s.state key value deleted
    edits := Function.update s.edits key ((s.edits key).map fun edit ↦
      { edit with preference := if deleted then none else some value }) }

/-- The checks of `mark_local` and its first request. `sync.rs:833–872`. -/
def mark (s : SyncService V) (key : String) (value : V) (deleted : Bool) : SyncService V :=
  if key = customThemesKey then s
  else match catalog.syncedSpec key with
    | none => s.setLocalPreference key value deleted
    | some spec =>
      if !deleted && !catalog.validateValue spec.key value then s
      else
        let wire? := if deleted then some catalog.null
          else if key = customCategoriesKey then catalog.categoriesToWire value else some value
        let daemon? := if deleted then some (catalog.daemonConfigDefault spec.storageKey)
          else catalog.valueToDaemonConfig spec value
        match wire?, spec.owner, daemon? with
        | none, _, _ | _, .daemon, none => s
        | some wire, .daemon, some daemonValue =>
          let patch : ConfigPatch :=
            { values := SortedMap.empty.insert spec.storageKey daemonValue
              expected := s.published.revision
              retried := false }
          { s with
            calls := s.calls ++ [{ epoch := s.epoch, key, owner := spec.owner, value, wire, deleted,
                                   patch := some patch }] }
        | some wire, _, _ =>
          { s with
            calls := s.calls ++ [{ epoch := s.epoch, key, owner := spec.owner, value, wire, deleted,
                                   patch := none }] }

/-- An attempt to patch the daemon for an edit. `sync.rs:865–871`. -/
def markPatch (s : SyncService V) (n : Nat) (reached : Bool) : SyncService V :=
  match s.calls[n]? with
  | none => s
  | some call =>
    match call.patch with
    | none => s
    | some patch =>
      if call.epoch ≠ s.epoch || !reached then { s with calls := s.calls.eraseIdx n }
      else match patch.attempt s.daemon with
        | (daemon, .inr true) =>
          { s with daemon, calls := s.calls.modify n fun call ↦ { call with patch := none } }
        | (daemon, .inr false) => { s with daemon, calls := s.calls.eraseIdx n }
        | (daemon, .inl patch) =>
          { s with daemon, calls := s.calls.modify n fun call ↦ { call with patch := some patch } }

/-- The lock section of `mark_local`. `sync.rs:873–895`. -/
def markRecord (s : SyncService V) (n : Nat) (now : Int) : SyncService V :=
  match s.calls[n]? with
  | none => s
  | some call =>
    if call.patch.isSome then s
    else if call.epoch ≠ s.epoch then { s with calls := s.calls.eraseIdx n }
    else
      let keeps : Bool := call.owner = .agent ∨ call.owner = .preferences
      let state :=
        if keeps then writePreference s.state call.key call.value call.deleted else s.state
      let localOnly := catalog.isLocalOnly state.localOnlyKeys call.key
      let entry := (state.entries.get? call.key).getD (.default catalog)
      { s with
        calls := s.calls.eraseIdx n
        state :=
          if localOnly then state
          else
            { state with
              entries := state.entries.insert call.key
                { entry with
                  value := call.wire, deleted := call.deleted, dirty := true,
                  editedAtMs := some now } }
        edits :=
          if localOnly then s.edits
          else Function.update s.edits call.key (some
            { value := call.wire, deleted := call.deleted, editedAtMs := now, owner := call.owner
              preference := state.preferences.get? call.key, answered := false }) }

end Calls

section Run

/-- The run ends. -/
def endRun (s : SyncService V) (result : Except SyncError Unit) : SyncService V :=
  { s with run := none, lastResult := some result }

/-- The run waits for the next thing. -/
def goOn (s : SyncService V) (run : SyncRun V) (phase : SyncPhase V) : SyncService V :=
  { s with run := some { run with phase } }

/-- A lock section of a run: it ends the run when the session or the account has changed. -/
def locked (s : SyncService V) (run : SyncRun V) (section_ : SyncService V) : SyncService V :=
  if run.epoch ≠ s.epoch then s.endRun (.error .cloud)
  else if s.state.accountUid ≠ some run.uid then s.endRun (.error .accountChanged)
  else section_

/-- `sync.rs:640–660`. -/
def begin (s : SyncService V) : SyncService V :=
  match s.run, s.userId with
  | none, some uid =>
    let s := s.bindAccount (some uid)
    { s with
      run := some
        { epoch := s.epoch, uid
          phase := .pull s.state.revision (s.state.revision = 0 || !s.state.syncPulled) } }
  | _, _ => s

/-- Patch the daemon if there is something to patch, then push. -/
def patchThenPush (s : SyncService V) (run : SyncRun V) (values : SortedMap String String)
    (work : SyncWork V) : SyncService V :=
  if values.entries.isEmpty then s.goOn run (.push work)
  else s.goOn run (.patch work { values, expected := s.published.revision, retried := false })

/-- Apply the pull, seed, and take what is to be pushed. `sync.rs:667–694`. -/
def apply (s : SyncService V) (run : SyncRun V) (since : Nat) (firstSync : Bool)
    (pull : PullResult V) (currentDaemon : SortedMap String String) : SyncService V :=
  let items := parseItems pull.items
  let (state, report) := s.state.applyPull catalog items currentDaemon
  let state :=
    if firstSync || pull.resync then
      state.seedLocalValues catalog (items.map SyncItem.key) currentDaemon pull.resync
    else state
  let sent := (state.dirtyEntries catalog).entries
  { s with state }.patchThenPush run report.daemonChanges
    { since, firstSync
      noPulledItems := pull.items.isEmpty
      pullRevision := pull.revision
      prefsChanged := report.prefsChanged
      pushes := !sent.isEmpty
      batches := sent.toChunks maxItemsPerPush
      watermark := some pull.revision }

/-- The watermark after the answer to a batch. `sync.rs:745–748`. -/
def nextWatermark (watermark : Option Nat) (revision : Nat) : Option Nat :=
  (watermark.filter fun current ↦ revision = current ∨ revision = current + 1).map fun _ ↦ revision

/-- A batch of edits is answered. -/
def noteAnswered (edits : String → Option (Edit V)) (batch : List (String × SyncEntry V)) :
    String → Option (Edit V) := fun key ↦
  (edits key).map fun edit ↦
    { edit with
      answered := edit.answered || batch.any fun sent ↦
        sent.1 = key ∧ sent.2.value = edit.value ∧ sent.2.deleted = edit.deleted ∧
          sent.2.editedAtMs = some edit.editedAtMs }

/-- Clear what was pushed and apply the conflicts. `sync.rs:709–748`. -/
def settle (s : SyncService V) (run : SyncRun V) (work : SyncWork V)
    (batch : List (String × SyncEntry V)) (revision : Nat) (conflicts : List (SyncItem V)) :
    SyncService V :=
  let cleared := batch.foldl AgentState.clearSent s.state
  let (state, report) := cleared.applyPull catalog conflicts s.published.values
  { s with state, edits := noteAnswered s.edits batch }.patchThenPush run report.daemonChanges
    { work with
      prefsChanged := work.prefsChanged || report.prefsChanged
      watermark := nextWatermark work.watermark revision }

/-- Store the watermark. `sync.rs:749–763`. -/
def store (s : SyncService V) (run : SyncRun V) (work : SyncWork V) : SyncService V :=
  let revision := if work.pushes then work.watermark.getD work.pullRevision else work.pullRevision
  let idle := !work.pushes && work.noPulledItems && !work.firstSync &&
    work.pullRevision == work.since
  { s with state := { s.state with revision } }.goOn run (.finish work idle)

/-- `sync.rs:765–786`. -/
def finish (s : SyncService V) (run : SyncRun V) (idle : Bool) : SyncService V :=
  let idle := idle && s.state.syncPulled && s.state.lastError.isNone
  let s := { s with state := { s.state with syncPulled := true, lastError := none } }
  if idle then s.endRun (.ok ()) else s.goOn run .persist

/-- A step of the run; an answer or a section it does not wait for changes nothing.
`sync.rs:640–787`. -/
def syncStep (s : SyncService V) (run : SyncRun V) : SyncOp V → SyncService V
  | .pulled answer =>
    match run.phase with
    | .pull since firstSync => s.goOn run (.apply since firstSync answer s.published.values)
    | _ => s
  | .apply =>
    match run.phase with
    | .apply since firstSync pull currentDaemon =>
      s.locked run (s.apply catalog run since firstSync pull currentDaemon)
    | _ => s
  | .patched reached =>
    match run.phase with
    | .patch work patch =>
      if run.epoch ≠ s.epoch then s.endRun (.error .cloud)
      else if !reached then s.endRun (.error .daemon)
      else match patch.attempt s.daemon with
        | (daemon, .inr true) => { s with daemon }.goOn run (.push work)
        | (daemon, .inr false) => { s with daemon }.endRun (.error .daemon)
        | (daemon, .inl patch) => { s with daemon }.goOn run (.patch work patch)
    | _ => s
  | .pushed answer =>
    match run.phase with
    | .push work =>
      match work.batches, answer.revision with
      | [], _ => s
      | _ :: _, none => s.endRun (.error .protocol)
      | batch :: batches, some revision =>
        s.goOn run (.settle { work with batches } batch revision (parseItems answer.conflicts))
    | _ => s
  | .settle =>
    match run.phase with
    | .settle work batch revision conflicts =>
      s.locked run (s.settle catalog run work batch revision conflicts)
    | _ => s
  | .store =>
    match run.phase with
    | .push work => if work.batches.isEmpty then s.locked run (s.store run work) else s
    | _ => s
  | .finish =>
    match run.phase with
    | .finish _ idle =>
      if run.epoch ≠ s.epoch then s.endRun (.error .cloud) else s.finish run idle
    | _ => s
  | .persisted ok =>
    match run.phase with
    | .persist => s.endRun (if ok then .ok () else .error .state)
    | _ => s
  | .failed e =>
    match run.phase with
    | .pull _ _ | .push _ => s.endRun (.error e)
    | _ => s
  | _ => s

end Run

/-- One step of the system. -/
def step (s : SyncService V) (op : SyncOp V) : SyncService V :=
  match op with
  | .login uid => s.login uid
  | .logout => s.logout
  | .setEnabled enabled =>
    if enabled then { s with state := { s.state with lastError := none } } else s
  | .setLocalOnly keys localOnly => s.setLocalOnly catalog keys localOnly
  | .setLocalPreference key value deleted => s.setLocalPreference key value deleted
  | .mark key value deleted => s.mark catalog key value deleted
  | .markPatch n reached => s.markPatch n reached
  | .markRecord n now => s.markRecord catalog n now
  | .publish => { s with published := s.daemon }
  | .patchDaemon values =>
    { s with
      daemon :=
        { revision := s.daemon.revision + 1, values := s.daemon.values.insertAll values.entries } }
  | .forceFullPull => { s with state := { s.state with revision := 0, syncPulled := false } }
  | .recordError e => { s with state := { s.state with lastError := some e } }
  | .begin => s.begin
  | op => match s.run with
    | none => s
    | some run => s.syncStep catalog run op

/-- The service after a start, with the state found on disk. -/
def new (state : AgentState V) (userId : Option String) (daemon : DaemonConfig) :
    SyncService V where
  state
  epoch := 0
  userId
  daemon
  published := daemon
  run := none
  calls := []
  lastResult := none
  edits := fun _ ↦ none

section Sections

variable (s : SyncService V) (run : SyncRun V)

omit [DecidableEq V] in
private theorem state_patchThenPush (values : SortedMap String String) (work : SyncWork V) :
    (s.patchThenPush run values work).state = s.state := by
  unfold patchThenPush
  split <;> rfl

omit [DecidableEq V] in
private theorem edits_patchThenPush (values : SortedMap String String) (work : SyncWork V) :
    (s.patchThenPush run values work).edits = s.edits := by
  unfold patchThenPush
  split <;> rfl

variable (since : Nat) (firstSync : Bool) (pull : PullResult V)
  (currentDaemon : SortedMap String String)

/-- The state after a pull was applied. -/
theorem state_apply :
    (s.apply catalog run since firstSync pull currentDaemon).state =
      if firstSync || pull.resync then
        (s.state.applyPull catalog (parseItems pull.items) currentDaemon).1.seedLocalValues catalog
          ((parseItems pull.items).map SyncItem.key) currentDaemon pull.resync
      else (s.state.applyPull catalog (parseItems pull.items) currentDaemon).1 :=
  state_patchThenPush ..

/-- Applying a pull is no edit. -/
theorem edits_apply :
    (s.apply catalog run since firstSync pull currentDaemon).edits = s.edits :=
  edits_patchThenPush ..

/-- Applying a pull changes nothing beside the entries. -/
theorem rest_apply :
    (s.apply catalog run since firstSync pull currentDaemon).state.rest = s.state.rest := by
  rw [state_apply]
  split
  · exact (AgentState.rest_seedLocalValues ..).trans (AgentState.rest_applyPull ..)
  · exact AgentState.rest_applyPull ..

variable (work : SyncWork V) (batch : List (String × SyncEntry V)) (revision : Nat)
  (conflicts : List (SyncItem V))

/-- The state after a push was answered. -/
theorem state_settle :
    (s.settle catalog run work batch revision conflicts).state =
      ((batch.foldl AgentState.clearSent s.state).applyPull catalog conflicts
        s.published.values).1 :=
  state_patchThenPush ..

/-- The edits that a push answered are noted. -/
theorem edits_settle :
    (s.settle catalog run work batch revision conflicts).edits = noteAnswered s.edits batch :=
  edits_patchThenPush ..

/-- An answer changes nothing beside the entries. -/
theorem rest_settle :
    (s.settle catalog run work batch revision conflicts).state.rest = s.state.rest := by
  rw [state_settle]
  exact (AgentState.rest_applyPull ..).trans (AgentState.rest_foldl_clearSent ..)

end Sections

end SyncService

end Agent
