import FluxDown.Base.SortedMap

/-!
# Synced settings and how cloud items reach them

Library `Agent`. A setting of the catalog has an entry, which says what the cloud and this device
agree on or, while it is dirty, what this device still has to push; and a value in effect, a
preference or a configuration value of the daemon. Values, the catalog and the conversions of
values are parameters; texts that only go to the log are left out.
-/

namespace Agent

open Base

/-- Who keeps a setting. `src/native/protocol/src/settings.rs:6–11`. -/
inductive SyncOwner where
  | daemon
  | agent
  | preferences
  | excluded
deriving DecidableEq

/-- A setting of the catalog. `settings.rs:14–18`. -/
structure SettingSpec where
  key : String
  owner : SyncOwner
  storageKey : String
deriving DecidableEq

/-- The catalog, its scopes and the conversions of values. `settings.rs:60–430`. -/
structure SettingCatalog (V : Type) where
  specs : List SettingSpec
  syncScopeKey : String → String
  isCustomTheme : String → Bool
  null : V
  validateValue : String → V → Bool
  valueToDaemonConfig : SettingSpec → V → Option String
  daemonConfigToValue : SettingSpec → String → Option V
  normalizeDaemonConfigValue : String → String → Option String
  daemonConfigDefault : String → String
  categoriesToWire : V → Option V
  mergeCategoriesFromWire : V → Option V → Option V

/-- The key of a collection, which holds no value itself. `settings.rs:48`. -/
def customThemesKey : String := "appearance.custom_themes"

/-- `src/native/agent/src/sync.rs:40`. -/
def customCategoriesKey : String := "custom_categories"

/-- Items in one push. `sync.rs:68`. -/
def maxItemsPerPush : Nat := 128

/-- Accounts whose data is kept aside. `src/native/agent/src/state.rs:53`. -/
def syncStashLimit : Nat := 8

variable {V : Type}

namespace SettingCatalog

variable (catalog : SettingCatalog V)

/-- `settings.rs:152–155`. -/
def settingSpec (key : String) : Option SettingSpec :=
  catalog.specs.find? fun spec ↦ spec.key = catalog.syncScopeKey key

/-- `sync.rs:42–44`. -/
def ownerForKey (key : String) : SyncOwner :=
  ((catalog.settingSpec key).map SettingSpec.owner).getD .excluded

/-- The spec of a setting that takes part in the sync. -/
def syncedSpec (key : String) : Option SettingSpec :=
  (catalog.settingSpec key).filter fun spec ↦ spec.owner ≠ .excluded

/-- `sync.rs:47–50`. -/
def isLocalOnly (localOnlyKeys : List String) (key : String) : Bool :=
  localOnlyKeys.contains (catalog.syncScopeKey key)

end SettingCatalog

/-- What is stored of a synced setting. `state.rs:31–41`. -/
structure SyncEntry (V : Type) where
  value : V
  version : Nat
  dirty : Bool
  deleted : Bool
  editedAtMs : Option Int
deriving DecidableEq

/-- `#[derive(Default)]`. -/
def SyncEntry.default (catalog : SettingCatalog V) : SyncEntry V where
  value := catalog.null
  version := 0
  dirty := false
  deleted := false
  editedAtMs := none

/-- The sync data of one account. `state.rs:46–50`. -/
structure AccountSyncData (V : Type) where
  revision : Nat
  entries : SortedMap String (SyncEntry V)
  pulled : Bool

/-- An account nothing is known of. -/
def AccountSyncData.empty : AccountSyncData V where
  revision := 0
  entries := SortedMap.empty
  pulled := false

/-- Why a sync fails. `sync.rs:1298–1320`. -/
inductive SyncError where
  | cloud
  | daemon
  | protocol
  | state
  | accountChanged
deriving DecidableEq

/-- The part of the agent's state that the sync works on. `state.rs:73–109`. -/
structure AgentState (V : Type) where
  deviceId : String
  accountUid : Option String
  revision : Nat
  syncPulled : Bool
  entries : SortedMap String (SyncEntry V)
  stash : SortedMap String (AccountSyncData V)
  localOnlyKeys : List String
  preferences : SortedMap String V
  preferencesRevision : Nat
  lastError : Option SyncError

/-- An item of the cloud. `sync.rs:84–96`. -/
structure SyncItem (V : Type) where
  key : String
  value : V
  deleted : Bool
  version : Nat
  deviceId : String
  editedAt : Option Int
deriving DecidableEq

/-- Drop the items that do not parse. `sync.rs:927–940`. -/
def parseItems (values : List (Option (SyncItem V))) : List (SyncItem V) := values.filterMap id

/-- `sync.rs:967–974`. -/
structure PullReport where
  daemonChanges : SortedMap String String
  prefsChanged : Bool

/-- What a cloud value becomes on this device. `sync.rs:1072–1077`. -/
inductive Applied (V : Type) where
  | daemon (wire : String)
  | preference (value : Option V)

namespace AgentState

/-- Keep the newest accounts in the order of their names. `state.rs:125–130`. -/
def trimStash (stash : SortedMap String (AccountSyncData V)) :
    SortedMap String (AccountSyncData V) :=
  stash.eraseAll (stash.keys.take (stash.keys.length - syncStashLimit))

/-- Switch to the data of an account. `state.rs:112–151`. -/
def bindAccount (s : AgentState V) (uid : Option String) : AgentState V :=
  if s.accountUid = uid then s
  else
    let current : AccountSyncData V :=
      { revision := s.revision, entries := s.entries, pulled := s.syncPulled }
    let (stash, next) : SortedMap String (AccountSyncData V) × AccountSyncData V :=
      match s.accountUid, uid with
      | some previous, none => (trimStash (s.stash.insert previous current), .empty)
      | some previous, some uid =>
        let stash := trimStash (s.stash.insert previous current)
        (stash.erase uid, (stash.get? uid).getD .empty)
      | none, some uid =>
        (s.stash.erase uid,
          (s.stash.get? uid).getD { revision := 0, entries := s.entries, pulled := false })
      | none, none => (s.stash, .empty)
    { s with
      accountUid := uid
      revision := next.revision
      syncPulled := next.pulled
      entries := next.entries
      stash
      lastError := none }

variable [DecidableEq V] (catalog : SettingCatalog V)

/-- `sync.rs:1079–1113`. -/
def prepareRemoteValue (preferences : SortedMap String V) (spec : SettingSpec)
    (item : SyncItem V) : Option (Applied V) :=
  match spec.owner with
  | .daemon =>
    if item.deleted then some (.daemon (catalog.daemonConfigDefault spec.storageKey))
    else if catalog.validateValue spec.key item.value then
      (catalog.valueToDaemonConfig spec item.value).bind fun wire ↦
        (catalog.normalizeDaemonConfigValue spec.storageKey wire).map .daemon
    else none
  | .agent | .preferences =>
    if item.deleted then some (.preference none)
    else if catalog.validateValue spec.key item.value then
      if spec.key = customCategoriesKey then
        (catalog.mergeCategoriesFromWire item.value
          (preferences.get? customCategoriesKey)).map fun value ↦ .preference (some value)
      else some (.preference (some item.value))
    else none
  | .excluded => none

/-- The value of an item goes into effect. `sync.rs:1040–1060`. -/
def takeValue (s : AgentState V) (report : PullReport) (currentDaemon : SortedMap String String)
    (spec : SettingSpec) (key : String) : Applied V → AgentState V × PullReport
  | .daemon wire =>
    if currentDaemon.get? spec.storageKey = some wire then (s, report)
    else
      (s, { report with daemonChanges := report.daemonChanges.insert spec.storageKey wire })
  | .preference value =>
    ({ s with
        preferences := match value with
          | some value => s.preferences.insert key value
          | none => s.preferences.erase key
        preferencesRevision := s.preferencesRevision + 1 },
      { report with prefsChanged := true })

/-- An item that no entry of this device stands against. `sync.rs:1028–1066`. -/
def takeItem (s : AgentState V) (report : PullReport) (currentDaemon : SortedMap String String)
    (spec : SettingSpec) (item : SyncItem V) : AgentState V × PullReport :=
  match prepareRemoteValue catalog s.preferences spec item with
  | none =>
    let entry := (s.entries.get? item.key).getD (.default catalog)
    ({ s with entries := s.entries.insert item.key { entry with version := item.version } },
      report)
  | some applied =>
    let (s, report) := s.takeValue report currentDaemon spec item.key applied
    ({ s with
        entries := s.entries.insert item.key
          { value := item.value, version := item.version, dirty := false,
            deleted := item.deleted, editedAtMs := item.editedAt } },
      report)

/-- An item of this device comes back. `sync.rs:1009–1016`. -/
def SyncEntry.echo (entry : SyncEntry V) (item : SyncItem V) : SyncEntry V :=
  { entry with
    version := max entry.version item.version
    dirty := entry.dirty && !(entry.value == item.value && entry.deleted == item.deleted) }

/-- One item of `apply_pull`. `sync.rs:994–1067`. -/
def applyItem (currentDaemon : SortedMap String String) (acc : AgentState V × PullReport)
    (item : SyncItem V) : AgentState V × PullReport :=
  let (s, report) := acc
  match catalog.syncedSpec item.key with
  | none => acc
  | some spec =>
    if item.key = customThemesKey then acc
    else if catalog.isLocalOnly s.localOnlyKeys item.key then acc
    else match s.entries.get? item.key with
      | none => s.takeItem catalog report currentDaemon spec item
      | some entry =>
        if item.deviceId = s.deviceId then
          ({ s with entries := s.entries.insert item.key (SyncEntry.echo entry item) }, report)
        else if entry.dirty then acc
        else s.takeItem catalog report currentDaemon spec item

/-- Apply items of the cloud. `sync.rs:981–1070`. -/
def applyPull (s : AgentState V) (items : List (SyncItem V))
    (currentDaemon : SortedMap String String) : AgentState V × PullReport :=
  items.foldl (applyItem catalog currentDaemon)
    (s, { daemonChanges := SortedMap.empty, prefsChanged := false })

/-- The value a setting is seeded with. `sync.rs:1147–1181`. -/
def seedValue (s : AgentState V) (currentDaemon : SortedMap String String) (key : String)
    (spec : SettingSpec) : Option V :=
  let localValue := match spec.owner with
    | .daemon => (currentDaemon.get? spec.storageKey).bind (catalog.daemonConfigToValue spec)
    | .agent | .preferences => s.preferences.get? key
    | .excluded => none
  localValue.bind fun value ↦
    if key = customCategoriesKey then catalog.categoriesToWire value
    else if catalog.validateValue spec.key value then some value
    else none

/-- One candidate of `seed_local_values`. `sync.rs:1133–1192`. -/
def seedKey (remoteKeys : List String) (currentDaemon : SortedMap String String) (resync : Bool)
    (s : AgentState V) (key : String) : AgentState V :=
  match catalog.syncedSpec key with
  | none => s
  | some spec =>
    if remoteKeys.contains key || catalog.isLocalOnly s.localOnlyKeys key then s
    else match s.entries.get? key with
      | some entry =>
        if resync && !entry.deleted then
          { s with entries := s.entries.insert key { entry with dirty := true } }
        else s
      | none =>
        match seedValue catalog s currentDaemon key spec with
        | none => s
        | some value =>
          { s with
            entries := s.entries.insert key
              { value, version := 0, dirty := true, deleted := false, editedAtMs := none } }

/-- Seed what the cloud does not have. `sync.rs:1118–1193`. -/
def seedLocalValues (s : AgentState V) (remoteKeys : List String)
    (currentDaemon : SortedMap String String) (resync : Bool) : AgentState V :=
  let themeKeys := ((s.preferences.keys ++ s.entries.keys).filter catalog.isCustomTheme).dedup
  let candidates :=
    (catalog.specs.filter fun spec ↦ spec.key ≠ customThemesKey).map SettingSpec.key ++ themeKeys
  candidates.foldl (seedKey catalog remoteKeys currentDaemon resync) s

/-- What is to be pushed. `sync.rs:1196–1207`. -/
def dirtyEntries (s : AgentState V) : SortedMap String (SyncEntry V) :=
  s.entries.filter fun key entry ↦
    entry.dirty && catalog.ownerForKey key ≠ .excluded && !catalog.isLocalOnly s.localOnlyKeys key

/-- A pushed entry is no longer dirty, if it is still the one that was sent.
`sync.rs:715–722`. -/
def clearSent (s : AgentState V) (sent : String × SyncEntry V) : AgentState V :=
  match s.entries.get? sent.1 with
  | none => s
  | some entry =>
    if entry.value = sent.2.value ∧ entry.deleted = sent.2.deleted ∧
        entry.version = sent.2.version then
      { s with entries := s.entries.insert sent.1 { entry with dirty := false } }
    else s

section Rest

/-- The state without its entries and preferences. -/
def rest (s : AgentState V) : AgentState V :=
  { s with entries := SortedMap.empty, preferences := SortedMap.empty, preferencesRevision := 0 }

omit [DecidableEq V] in
private theorem rest_takeItem (s : AgentState V) (report : PullReport)
    (currentDaemon : SortedMap String String) (spec : SettingSpec) (item : SyncItem V) :
    (s.takeItem catalog report currentDaemon spec item).1.rest = s.rest := by
  unfold takeItem
  split
  · rfl
  · next applied _ =>
    cases applied with
    | daemon wire =>
      simp only [takeValue]
      split <;> rfl
    | preference value => rfl

/-- What an item does: nothing, the echo, or it is taken where no entry is dirty. -/
theorem applyItem_cases (s : AgentState V) (report : PullReport)
    (currentDaemon : SortedMap String String) (item : SyncItem V) :
    applyItem catalog currentDaemon (s, report) item = (s, report) ∨
      (∃ entry, s.entries.get? item.key = some entry ∧ item.deviceId = s.deviceId ∧
        applyItem catalog currentDaemon (s, report) item =
          ({ s with entries := s.entries.insert item.key (SyncEntry.echo entry item) }, report)) ∨
      ∃ spec, (∀ entry, s.entries.get? item.key = some entry → entry.dirty = false) ∧
        applyItem catalog currentDaemon (s, report) item =
          s.takeItem catalog report currentDaemon spec item := by
  simp only [applyItem]
  split
  · exact .inl rfl
  next spec _ =>
  split
  · exact .inl rfl
  split
  · exact .inl rfl
  split
  · next hnone =>
    refine .inr (.inr ⟨spec, fun entry hentry ↦ ?_, rfl⟩)
    rw [hnone] at hentry
    cases hentry
  next entry hentry =>
  split
  · next hdevice => exact .inr (.inl ⟨entry, hentry, hdevice, rfl⟩)
  split
  · exact .inl rfl
  next hdirty =>
  refine .inr (.inr ⟨spec, fun entry' hentry' ↦ ?_, rfl⟩)
  rw [hentry] at hentry'
  obtain rfl := Option.some.inj hentry'
  exact eq_false_of_ne_true hdirty

/-- An item of a pull changes nothing beside the entries. -/
theorem rest_applyItem (currentDaemon : SortedMap String String)
    (acc : AgentState V × PullReport) (item : SyncItem V) :
    (applyItem catalog currentDaemon acc item).1.rest = acc.1.rest := by
  rcases applyItem_cases catalog acc.1 acc.2 currentDaemon item with
    heq | ⟨entry, -, -, heq⟩ | ⟨spec, -, heq⟩
  · exact congrArg (fun r ↦ r.1.rest) heq
  · exact congrArg (fun r ↦ r.1.rest) heq
  · exact (congrArg (fun r ↦ r.1.rest) heq).trans (rest_takeItem ..)

/-- A pull changes nothing beside the entries. -/
theorem rest_applyPull (s : AgentState V) (items : List (SyncItem V))
    (currentDaemon : SortedMap String String) :
    (s.applyPull catalog items currentDaemon).1.rest = s.rest := by
  suffices hfold : ∀ acc : AgentState V × PullReport,
      (items.foldl (applyItem catalog currentDaemon) acc).1.rest = acc.1.rest from hfold _
  induction items with
  | nil => exact fun _ ↦ rfl
  | cons item items ih => exact fun acc ↦ (ih _).trans (rest_applyItem ..)

omit [DecidableEq V] in
/-- Seeding local values changes nothing beside the entries. -/
theorem rest_seedLocalValues (s : AgentState V) (remoteKeys : List String)
    (currentDaemon : SortedMap String String) (resync : Bool) :
    (s.seedLocalValues catalog remoteKeys currentDaemon resync).rest = s.rest := by
  have hkey : ∀ (s : AgentState V) (key : String),
      (seedKey catalog remoteKeys currentDaemon resync s key).rest = s.rest := by
    intro s key
    unfold seedKey
    split
    · rfl
    split
    · rfl
    split
    · split <;> rfl
    · split <;> rfl
  suffices hfold : ∀ (candidates : List String) (s : AgentState V),
      (candidates.foldl (seedKey catalog remoteKeys currentDaemon resync) s).rest = s.rest from
    hfold _ s
  intro candidates
  induction candidates with
  | nil => exact fun _ ↦ rfl
  | cons key candidates ih => exact fun s ↦ (ih _).trans (hkey s key)

/-- Clearing what was sent changes nothing beside the entries. -/
theorem rest_foldl_clearSent (s : AgentState V) (batch : List (String × SyncEntry V)) :
    (batch.foldl clearSent s).rest = s.rest := by
  induction batch generalizing s with
  | nil => rfl
  | cons sent batch ih =>
    refine (ih _).trans ?_
    unfold clearSent
    split
    · rfl
    · split <;> rfl

end Rest

end AgentState

end Agent
