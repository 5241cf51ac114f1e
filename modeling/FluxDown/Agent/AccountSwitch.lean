import FluxDown.Agent.SettingsState
import FluxDown.Base.Run

/-!
# Account switches

Library `Agent`. The sync data that a user sees belongs to the account the agent is bound to; the
data of other accounts waits in the stash. A step is a switch, an edit of the data in sight, or
the adoption of the session's account by a state from before accounts were kept. Each critical
section of the source is one step. The state carries the history of what each account recorded.
-/

namespace Agent

open Base

variable {V R : Type}

/-- The sync data in sight. -/
def AgentState.data (s : AgentState V) : AccountSyncData V where
  revision := s.revision
  entries := s.entries
  pulled := s.syncPulled

/-- An entry with the account that it was recorded under. -/
structure Recorded (V : Type) where
  account : Option String
  key : String
  entry : SyncEntry V
deriving DecidableEq

/-- The agent's state with the projections that a switch resets and the history. `lastError` of
`agent` stands for the error's text and reason. `src/native/agent/src/state.rs:73–109`. -/
structure SwitchState (V R : Type) where
  agent : AgentState V
  dirtyKeys : List String
  connected : Bool
  halted : Bool
  lastSyncedAtUnixMs : Option Int
  remoteTasks : List R
  remoteBindings : SortedMap String String
  recorded : List (Recorded V)
  revisions : List (Option String × Nat)

/-- What happens to the state. -/
inductive AccountOp (V R : Type) where
  | bind (uid : Option String)
  | edit (data : AccountSyncData V) (refreshed : Bool)
  | adopt (session : Option String)
  | note (connected halted : Bool) (lastError : Option SyncError) (lastSyncedAtUnixMs : Option Int)
      (remoteTasks : List R) (remoteBindings : SortedMap String String)

/-- The keys whose entries are to be pushed, in order. -/
def dirtyKeysOf (entries : SortedMap String (SyncEntry V)) : List String :=
  (entries.filter fun _ entry ↦ entry.dirty).keys

namespace SwitchState

/-- `#[derive(Default)]`. -/
def new : SwitchState V R where
  agent :=
    { deviceId := "", accountUid := none, revision := 0, syncPulled := false,
      entries := SortedMap.empty, stash := SortedMap.empty, localOnlyKeys := [],
      preferences := SortedMap.empty, preferencesRevision := 0, lastError := none }
  dirtyKeys := []
  connected := false
  halted := false
  lastSyncedAtUnixMs := none
  remoteTasks := []
  remoteBindings := SortedMap.empty
  recorded := []
  revisions := []

/-- `state.rs:166–173`. -/
def refreshSyncProjection (s : SwitchState V R) : SwitchState V R :=
  { s with dirtyKeys := dirtyKeysOf s.agent.entries }

/-- `state.rs:176–182`. -/
def resetSyncRuntime (s : SwitchState V R) : SwitchState V R :=
  { s with
    agent := { s.agent with lastError := none }
    connected := false
    halted := false
    lastSyncedAtUnixMs := none }

/-- The second component says whether the account changed. `state.rs:112–150`. -/
def bindAccount (s : SwitchState V R) (uid : Option String) : SwitchState V R × Bool :=
  if s.agent.accountUid = uid then (s, false)
  else
    let bound : SwitchState V R :=
      { s with
        agent := s.agent.bindAccount uid
        remoteTasks := []
        remoteBindings := SortedMap.empty }
    (bound.refreshSyncProjection.resetSyncRuntime, true)

/-- A state without an account takes the account of the session. `state.rs:153–163`. -/
def adoptSessionAccount (s : SwitchState V R) (session : Option String) : SwitchState V R :=
  match s.agent.accountUid, session with
  | none, some uid => { s with agent := { s.agent with accountUid := some uid } }
  | _, _ => s

section Step

variable [DecidableEq V]

/-- The entries that an edit changes, under the account in sight. -/
def changed (s : SwitchState V R) (entries : SortedMap String (SyncEntry V)) : List (Recorded V) :=
  (entries.entries.filter fun e ↦ s.agent.entries.get? e.1 ≠ some e.2).map fun e ↦
    ⟨s.agent.accountUid, e.1, e.2⟩

/-- An edit of the data in sight, in one critical section; some end with a refresh of the
projection (`src/native/agent/src/sync.rs:217, 771, 889`) and some do not (`sync.rs:665–683`). -/
def edit (s : SwitchState V R) (data : AccountSyncData V) (refreshed : Bool) : SwitchState V R :=
  let edited : SwitchState V R :=
    { s with
      agent := { s.agent with
        revision := data.revision, entries := data.entries, syncPulled := data.pulled }
      recorded := s.changed data.entries ++ s.recorded
      revisions :=
        if data.revision = s.agent.revision then s.revisions
        else (s.agent.accountUid, data.revision) :: s.revisions }
  if refreshed then edited.refreshSyncProjection else edited

def step (s : SwitchState V R) : AccountOp V R → SwitchState V R
  | .bind uid => (s.bindAccount uid).1
  | .edit data refreshed => s.edit data refreshed
  | .adopt session => s.adoptSessionAccount session
  | .note connected halted lastError lastSyncedAtUnixMs remoteTasks remoteBindings =>
    { s with
      agent := { s.agent with lastError }
      connected, halted, lastSyncedAtUnixMs, remoteTasks, remoteBindings }

end Step

end SwitchState

/-! ## The stash -/

namespace AgentState

/-- The account that a switch drops from the stash. -/
def dropped (s : AgentState V) : Option String :=
  match s.accountUid, s.stash.keys with
  | some previous, first :: _ =>
    if syncStashLimit ≤ s.stash.keys.length ∧ previous ∉ s.stash.keys then
      some (min previous first)
    else none
  | _, _ => none

private theorem length_trimStash (stash : SortedMap String (AccountSyncData V)) :
    (trimStash stash).keys.length ≤ syncStashLimit := by
  rw [trimStash, SortedMap.length_keys, SortedMap.entries_eraseAll_take, List.length_drop,
    SortedMap.length_keys]
  omega

/-- The account left goes into the stash, and the dropped one goes out of it. -/
theorem get?_trimStash_insert (s : AgentState V) (hlimit : s.stash.keys.length ≤ syncStashLimit)
    {previous : String} (hbound : s.accountUid = some previous) (data : AccountSyncData V)
    (k : String) :
    (trimStash (s.stash.insert previous data)).get? k =
      if s.dropped = some k then none else (s.stash.insert previous data).get? k := by
  suffices hdropped : k ∈ (s.stash.insert previous data).keys.take
      ((s.stash.insert previous data).keys.length - syncStashLimit) ↔ s.dropped = some k by
    rw [trimStash, SortedMap.get?_eraseAll, if_congr hdropped rfl rfl]
  rw [SortedMap.length_keys_insert]
  unfold dropped
  by_cases hstashed : previous ∈ s.stash.keys
  · rw [if_pos hstashed, Nat.sub_eq_zero_of_le hlimit, hbound]
    cases hkeys : s.stash.keys with
    | nil => simp
    | cons first rest =>
      rw [hkeys] at hstashed
      simp [hstashed]
  · rw [if_neg hstashed, hbound]
    cases hkeys : s.stash.keys with
    | nil => simp [syncStashLimit]
    | cons first rest =>
      by_cases hfull : syncStashLimit ≤ (first :: rest).length
      · have hone : (first :: rest).length + 1 - syncStashLimit = 1 := by
          rw [hkeys] at hlimit
          omega
        rw [hkeys] at hstashed
        rw [hone, s.stash.take_one_keys_insert hkeys]
        simp only [hfull, hstashed, not_false_eq_true, and_self, if_true, List.mem_singleton,
          Option.some.injEq, eq_comm]
      · have hzero : (first :: rest).length + 1 - syncStashLimit = 0 := by omega
        rw [hzero]
        simp only [hfull, false_and, if_false, List.take_zero, List.not_mem_nil, reduceCtorEq]

/-! ## One switch -/

/-- A switch makes the stashed data of the account the data in sight, or starts afresh, and
stashes the data of the account left; the other accounts keep theirs. -/
structure Switched (old : AgentState V) (uid : Option String) (new : AgentState V) : Prop where
  restored : ∀ u d, uid = some u → old.stash.get? u = some d → new.data = d
  fresh : old.accountUid.isSome → (∀ u, uid = some u → old.stash.get? u = none) →
    new.data = .empty
  taken : old.accountUid = none → ∀ u, uid = some u → old.stash.get? u = none →
    new.data = { revision := 0, entries := old.entries, pulled := false }
  left : ∀ previous, old.accountUid = some previous → new.stash.get? previous = some old.data
  others : ∀ v d, old.stash.get? v = some d → some v ≠ uid → some v ≠ old.accountUid →
    old.dropped ≠ some v → new.stash.get? v = some d

/-- The account that a switch drops is neither the one left nor the one bound. -/
def Spares (s : AgentState V) (uid : Option String) : Prop :=
  ∀ lost, s.dropped = some lost → some lost ≠ s.accountUid ∧ some lost ≠ uid

instance (s : AgentState V) (uid : Option String) : Decidable (s.Spares uid) :=
  inferInstanceAs (Decidable (∀ lost ∈ s.dropped, some lost ≠ s.accountUid ∧ some lost ≠ uid))

private theorem dropped_of_none {s : AgentState V} (h : s.accountUid = none) :
    s.dropped = none := by
  unfold dropped
  rw [h]

private theorem accountUid_bindAccount (s : AgentState V) (uid : Option String) :
    (s.bindAccount uid).accountUid = uid := by
  unfold bindAccount
  split
  · assumption
  · rfl

private theorem length_erase_le (stash : SortedMap String (AccountSyncData V)) (u : String) :
    (stash.erase u).keys.length ≤ stash.keys.length := by
  rw [SortedMap.length_keys, SortedMap.length_keys]
  exact List.length_filter_le ..

private theorem length_stash_bindAccount (s : AgentState V)
    (hlimit : s.stash.keys.length ≤ syncStashLimit) (uid : Option String) :
    (s.bindAccount uid).stash.keys.length ≤ syncStashLimit := by
  unfold bindAccount
  split
  · exact hlimit
  · cases s.accountUid with
    | none =>
      cases uid with
      | none => exact hlimit
      | some u => exact (length_erase_le s.stash u).trans hlimit
    | some previous =>
      cases uid with
      | none => exact length_trimStash _
      | some u => exact (length_erase_le _ u).trans (length_trimStash _)

/-- The stash after a switch: the dropped account and the one bound are out of it. -/
theorem get?_stash_bindAccount (s : AgentState V)
    (hlimit : s.stash.keys.length ≤ syncStashLimit) {uid : Option String}
    (hne : s.accountUid ≠ uid) (k : String) :
    (s.bindAccount uid).stash.get? k =
      if s.dropped = some k ∨ uid = some k then none
      else if s.accountUid = some k then some s.data else s.stash.get? k := by
  unfold bindAccount
  rw [if_neg hne]
  cases hbound : s.accountUid with
  | none =>
    rw [dropped_of_none hbound]
    cases uid with
    | none => exact absurd hbound hne
    | some u => simp [eq_comm]
  | some previous =>
    have htrim := s.get?_trimStash_insert hlimit hbound s.data k
    rw [SortedMap.get?_insert] at htrim
    have hsome : (some previous = some k) = (k = previous) := by simp [eq_comm]
    rw [if_congr (Iff.of_eq hsome) rfl rfl]
    cases uid with
    | none =>
      change (trimStash (s.stash.insert previous s.data)).get? k = _
      simpa using htrim
    | some u =>
      change ((trimStash (s.stash.insert previous s.data)).erase u).get? k = _
      rw [SortedMap.get?_erase, htrim]
      by_cases hk : k = u
      · simp [hk]
      · simp [hk, Ne.symm hk]

/-- The data in sight after a switch. -/
def shown (s : AgentState V) : Option String → AccountSyncData V
  | none => .empty
  | some u =>
    (if s.dropped = some u then none else s.stash.get? u).getD
      (if s.accountUid.isSome then .empty
        else { revision := 0, entries := s.entries, pulled := false })

private theorem data_bindAccount (s : AgentState V) (hlimit : s.stash.keys.length ≤ syncStashLimit)
    {uid : Option String} (hne : s.accountUid ≠ uid) :
    (s.bindAccount uid).data = s.shown uid := by
  unfold bindAccount
  rw [if_neg hne]
  cases hbound : s.accountUid with
  | none =>
    cases uid with
    | none => rfl
    | some u =>
      rw [shown, dropped_of_none hbound, hbound]
      rfl
  | some previous =>
    cases uid with
    | none => rfl
    | some u =>
      have htrim := s.get?_trimStash_insert hlimit hbound s.data u
      have hother : u ≠ previous := fun heq ↦ hne (by rw [hbound, heq])
      rw [SortedMap.get?_insert, if_neg hother] at htrim
      rw [shown, ← htrim, hbound]
      rfl

/-- A switch that drops neither of its two accounts keeps what each has. -/
theorem switched_bindAccount (s : AgentState V) (hlimit : s.stash.keys.length ≤ syncStashLimit)
    {uid : Option String} (hne : s.accountUid ≠ uid) (hspares : s.Spares uid) :
    Switched s uid (s.bindAccount uid) := by
  have hdata := s.data_bindAccount hlimit hne
  have hstash := s.get?_stash_bindAccount hlimit hne
  have hbound : ∀ u, uid = some u → s.dropped ≠ some u := fun u hu hlost ↦
    (hspares u hlost).2 hu.symm
  constructor
  · rintro u d rfl hd
    rw [hdata, shown, if_neg (hbound u rfl), hd, Option.getD_some]
  · intro hsome hnone
    rw [hdata]
    cases uid with
    | none => rfl
    | some u => simp [shown, hnone u rfl, hsome]
  · rintro hnone u rfl hu
    rw [hdata, shown, hu]
    simp [hnone]
  · intro previous hprevious
    rw [hstash, if_neg, if_pos hprevious]
    rintro (hlost | huid)
    · exact (hspares previous hlost).1 hprevious.symm
    · exact hne (hprevious.trans huid.symm)
  · intro v d hv huid hprevious hkept
    rw [hstash, if_neg, if_neg (Ne.symm hprevious), hv]
    rintro (hlost | heq)
    · exact hkept hlost
    · exact huid heq.symm

end AgentState

namespace SwitchState

/-! ## Whose data is in sight -/

/-- What the data holds was recorded under the account, or under none. -/
structure Owned (s : SwitchState V R) (account : Option String) (data : AccountSyncData V) :
    Prop where
  entry : ∀ key entry, data.entries.get? key = some entry →
    ∃ account', (account' = account ∨ account' = none) ∧ ⟨account', key, entry⟩ ∈ s.recorded
  revision : data.revision = 0 ∨
    ∃ account', (account' = account ∨ account' = none) ∧ (account', data.revision) ∈ s.revisions

/-- The data in sight is the bound account's, the stashed data is the data of its account, and
the stash is bounded. -/
structure Isolated (s : SwitchState V R) : Prop where
  bounded : s.agent.stash.keys.length ≤ syncStashLimit
  visible : s.Owned s.agent.accountUid s.agent.data
  stashed : ∀ u d, s.agent.stash.get? u = some d → s.Owned (some u) d

/-- The projection lists the entries to be pushed. -/
def Projected (s : SwitchState V R) : Prop := s.dirtyKeys = dirtyKeysOf s.agent.entries

private theorem Owned.mono {s s' : SwitchState V R} {account : Option String}
    {data : AccountSyncData V}
    (h : s.Owned account data) (hrecorded : s.recorded ⊆ s'.recorded)
    (hrevisions : s.revisions ⊆ s'.revisions) : s'.Owned account data where
  entry key entry hentry :=
    have ⟨account', haccount, hmem⟩ := h.entry key entry hentry
    ⟨account', haccount, hrecorded hmem⟩
  revision := h.revision.imp_right fun ⟨account', haccount, hmem⟩ ↦
    ⟨account', haccount, hrevisions hmem⟩

/-- What was recorded under no account may be taken by any. -/
theorem Owned.of_none {s : SwitchState V R} {data : AccountSyncData V} (h : s.Owned none data)
    (account : Option String) : s.Owned account data where
  entry key entry hentry :=
    have ⟨account', haccount, hmem⟩ := h.entry key entry hentry
    ⟨account', .inr (haccount.elim id id), hmem⟩
  revision := h.revision.imp_right fun ⟨account', haccount, hmem⟩ ↦
    ⟨account', .inr (haccount.elim id id), hmem⟩

private theorem owned_empty (s : SwitchState V R) (account : Option String) :
    s.Owned account .empty where
  entry key entry hentry := by cases hentry
  revision := .inl rfl

private theorem isolated_new : Isolated (new : SwitchState V R) where
  bounded := Nat.zero_le _
  visible := owned_empty _ _
  stashed u d hd := by cases hd

/-- The agent's state after a switch, up to the error that it clears. -/
theorem agent_bindAccount (s : SwitchState V R) {uid : Option String}
    (hne : s.agent.accountUid ≠ uid) :
    (s.bindAccount uid).1.agent = { s.agent.bindAccount uid with lastError := none } := by
  unfold bindAccount
  rw [if_neg hne]
  rfl

private theorem owned_shown {s : SwitchState V R} (h : s.Isolated) (uid : Option String) :
    s.Owned uid (s.agent.shown uid) := by
  unfold AgentState.shown
  split
  · exact owned_empty s none
  next u =>
  cases hstashed : (if s.agent.dropped = some u then none else s.agent.stash.get? u) with
  | some d =>
    apply h.stashed u d
    split at hstashed
    · cases hstashed
    · exact hstashed
  | none =>
    rw [Option.getD_none]
    split
    · exact owned_empty s _
    · next hnone =>
      have hvisible := h.visible
      rw [Option.not_isSome_iff_eq_none.mp hnone] at hvisible
      exact { entry := (hvisible.of_none _).entry, revision := .inl rfl }

private theorem isolated_bindAccount {s : SwitchState V R} (h : s.Isolated)
    (uid : Option String) : (s.bindAccount uid).1.Isolated := by
  by_cases hne : s.agent.accountUid = uid
  · unfold bindAccount
    rw [if_pos hne]
    exact h
  have hgrown : ∀ {account data}, s.Owned account data →
      (s.bindAccount uid).1.Owned account data := by
    intro account data howned
    unfold bindAccount
    rw [if_neg hne]
    exact { howned with }
  have hagent := s.agent_bindAccount hne
  constructor
  · rw [hagent]
    exact s.agent.length_stash_bindAccount h.bounded uid
  · rw [hagent]
    change Owned _ (s.agent.bindAccount uid).accountUid (s.agent.bindAccount uid).data
    rw [s.agent.accountUid_bindAccount, s.agent.data_bindAccount h.bounded hne]
    exact hgrown (owned_shown h uid)
  · rw [hagent]
    intro u d hd
    change (s.agent.bindAccount uid).stash.get? u = some d at hd
    rw [s.agent.get?_stash_bindAccount h.bounded hne] at hd
    split at hd
    · cases hd
    · split at hd
      · next hbound =>
        cases hd
        exact hgrown (hbound ▸ h.visible)
      · exact hgrown (h.stashed u d hd)

private theorem isolated_adopt {s : SwitchState V R} (h : s.Isolated)
    (session : Option String) : (s.adoptSessionAccount session).Isolated := by
  unfold adoptSessionAccount
  split
  · next uid hnone =>
    have hvisible := h.visible
    rw [hnone] at hvisible
    exact ⟨h.bounded, { hvisible.of_none (some uid) with },
      fun u d hd ↦ { h.stashed u d hd with }⟩
  · exact h

section Step

variable [DecidableEq V]

private theorem isolated_edit {s : SwitchState V R} (h : s.Isolated) (data : AccountSyncData V)
    (refreshed : Bool) : (s.edit data refreshed).Isolated := by
  suffices hedited : (s.edit data false).Isolated by
    cases refreshed with
    | false => exact hedited
    | true => exact ⟨hedited.bounded, ⟨hedited.visible.entry, hedited.visible.revision⟩,
        fun u d hd ↦ ⟨(hedited.stashed u d hd).entry, (hedited.stashed u d hd).revision⟩⟩
  have hrevisions : s.revisions ⊆ (s.edit data false).revisions := by
    simp only [edit, Bool.false_eq_true, if_false]
    split
    · exact List.Subset.refl _
    · exact List.subset_cons_self ..
  have hgrown : ∀ {account data'}, s.Owned account data' →
      (s.edit data false).Owned account data' := fun howned ↦
    howned.mono (List.subset_append_right ..) hrevisions
  refine ⟨h.bounded, ⟨fun key entry hentry ↦ ?_, ?_⟩, fun u d hd ↦ hgrown (h.stashed u d hd)⟩
  · by_cases hkept : s.agent.entries.get? key = some entry
    · exact (hgrown h.visible).entry key entry hkept
    · refine ⟨s.agent.accountUid, .inl rfl, List.mem_append_left _ ?_⟩
      apply List.mem_map.mpr
      refine ⟨(key, entry), List.mem_filter.mpr ⟨?_, decide_eq_true hkept⟩, rfl⟩
      exact data.entries.get?_eq_some_iff.mp hentry
  · by_cases hkept : data.revision = s.agent.revision
    · have hvisible : s.agent.revision = 0 ∨
          ∃ account', (account' = s.agent.accountUid ∨ account' = none) ∧
            (account', s.agent.revision) ∈ (s.edit data false).revisions :=
        (hgrown h.visible).revision
      rw [← hkept] at hvisible
      exact hvisible
    · refine .inr ⟨s.agent.accountUid, .inl rfl, ?_⟩
      change _ ∈ if data.revision = s.agent.revision then _ else _
      rw [if_neg hkept]
      exact List.mem_cons_self

private theorem isolated_step (s : SwitchState V R) (op : AccountOp V R) (h : s.Isolated) :
    (s.step op).Isolated := by
  cases op with
  | bind uid => exact isolated_bindAccount h uid
  | edit data refreshed => exact isolated_edit h data refreshed
  | adopt session => exact isolated_adopt h session
  | note => exact ⟨h.bounded, { h.visible with }, fun u d hd ↦ { h.stashed u d hd with }⟩

/-! ## Runs -/

/-- A switch spares its two accounts, and an edit that changes what is to be pushed refreshes the
projection. -/
def Keeps (s : SwitchState V R) : AccountOp V R → Prop
  | .bind uid => s.agent.accountUid ≠ uid → s.agent.Spares uid
  | .edit data refreshed => refreshed ∨ dirtyKeysOf data.entries = dirtyKeysOf s.agent.entries
  | .adopt _ | .note .. => True

private theorem projected_step {s : SwitchState V R} {op : AccountOp V R} (h : s.Projected)
    (hkeeps : s.Keeps op) : (s.step op).Projected := by
  cases op with
  | bind uid =>
    change (s.bindAccount uid).1.Projected
    unfold bindAccount
    split
    · exact h
    · rfl
  | edit data refreshed =>
    cases refreshed with
    | true => rfl
    | false => exact h.trans (hkeeps.resolve_left Bool.false_ne_true).symm
  | adopt session =>
    change (s.adoptSessionAccount session).Projected
    unfold adoptSessionAccount
    split
    · exact h
    · exact h
  | note => exact h

/-- Every run isolates the accounts and bounds the stash; where each switch spares its accounts
and each edit keeps the projection, the projection is right in every state and each further
switch restores and stashes exactly what the two accounts have. -/
theorem switch_isolates (ops : List (AccountOp V R)) :
    let s := run step new ops
    s.Isolated ∧
      (EveryStep step Keeps new ops → s.Projected ∧
        ∀ uid, s.agent.accountUid ≠ uid → s.Keeps (.bind uid) →
          AgentState.Switched s.agent uid (s.step (.bind uid)).agent) := by
  intro s
  have hisolated : s.Isolated := run_preserves isolated_step isolated_new ops
  refine ⟨hisolated, fun hkeeps ↦ ⟨?_, fun uid hne hspares ↦ ?_⟩⟩
  · exact run_invariant (fun _ _ ↦ projected_step) rfl hkeeps
  · have hswitched := s.agent.switched_bindAccount hisolated.bounded hne (hspares hne)
    change AgentState.Switched s.agent uid (s.bindAccount uid).1.agent
    rw [s.agent_bindAccount hne]
    exact { hswitched with }

/-- An account that has seen revision 5 is left for another. -/
def twoAccounts : List (AccountOp Unit Unit) :=
  [.bind (some "a"), .edit ⟨5, SortedMap.empty, true⟩ true, .bind (some "b")]

/-- The switch back shows its data again. -/
theorem switch_isolates_two :
    (run step new (twoAccounts ++ [.bind (some "a")])).agent.data = ⟨5, SortedMap.empty, true⟩ := by
  have h := (switch_isolates twoAccounts).2 (by
    refine ⟨?_, .inl rfl, ?_, trivial⟩ <;> (intro _; decide +kernel))
  rw [run_concat]
  exact (h.2 (some "a") (by decide) (fun _ ↦ by decide +kernel)).restored "a" _ rfl rfl

/-- Nine accounts are bound in turn; the first has seen revision 5. -/
def nineAccounts : List (AccountOp Unit Unit) :=
  .bind (some "a") :: .edit ⟨5, SortedMap.empty, true⟩ true ::
    (["b", "c", "d", "e", "f", "g", "h", "i"].map fun uid ↦ .bind (some uid))

/-- The switch back to the first account stashes the ninth, drops the first for it, and starts
from nothing. -/
theorem restored_lost :
    ¬ AgentState.Switched (run step new nineAccounts).agent (some "a")
      (run step new (nineAccounts ++ [.bind (some "a")])).agent := by
  intro h
  have hstashed : ((run step new nineAccounts).agent.stash.get? "a").map
      AccountSyncData.revision = some 5 := by decide +kernel
  obtain ⟨d, hd, hrevision⟩ := Option.map_eq_some_iff.mp hstashed
  rw [← h.restored "a" d rfl hd] at hrevision
  revert hrevision
  decide +kernel

end Step

end SwitchState

end Agent
