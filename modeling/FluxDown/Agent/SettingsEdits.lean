import FluxDown.Base.Run
import FluxDown.Agent.SettingsSync

/-!
# No edit is lost by the sync

Library `Agent`. An edit that was recorded stays dirty until a push of it is answered. The
sections that clear an entry compare its value and flag with what was sent or what came back, but
not the time of the edit: they are harmless as long as no later edit to the same value stands in
the entry.
-/

namespace Agent

open Base

variable {V : Type}

/-- The entry and the preference of a key are those of an edit. -/
structure AgentState.Holds (s : AgentState V) (key : String) (edit : Edit V) : Prop where
  entry : ∃ entry, s.entries.get? key = some entry ∧ entry.value = edit.value ∧
    entry.deleted = edit.deleted ∧ entry.editedAtMs = some edit.editedAtMs ∧ entry.dirty = true
  preference : edit.owner = .agent ∨ edit.owner = .preferences →
    s.preferences.get? key = edit.preference

namespace AgentState

variable {s s' : AgentState V} {key : String} {edit : Edit V}

private theorem Holds.congr (h : s.Holds key edit)
    (hentries : s'.entries.get? key = s.entries.get? key)
    (hpreferences : s'.preferences.get? key = s.preferences.get? key) : s'.Holds key edit :=
  ⟨hentries.symm ▸ h.entry, fun howner ↦ hpreferences.trans (h.preference howner)⟩

variable {catalog : SettingCatalog V}

private theorem takeItem_of_ne (catalog : SettingCatalog V) (s : AgentState V) (report : PullReport)
    (currentDaemon : SortedMap String String) (spec : SettingSpec) {item : SyncItem V}
    (hne : key ≠ item.key) :
    (s.takeItem catalog report currentDaemon spec item).1.entries.get? key = s.entries.get? key ∧
      (s.takeItem catalog report currentDaemon spec item).1.preferences.get? key =
        s.preferences.get? key := by
  unfold takeItem
  split
  · exact ⟨by rw [SortedMap.get?_insert, if_neg hne], rfl⟩
  · next applied _ =>
    cases applied with
    | daemon wire =>
      simp only [takeValue]
      split <;> exact ⟨by rw [SortedMap.get?_insert, if_neg hne], rfl⟩
    | preference value =>
      refine ⟨by rw [SortedMap.get?_insert, if_neg hne]; rfl, ?_⟩
      cases value with
      | none => exact (SortedMap.get?_erase ..).trans (if_neg hne)
      | some value => exact (SortedMap.get?_insert ..).trans (if_neg hne)

variable [DecidableEq V]

/-- The echo of another value only moves the version on. -/
theorem echo_of_ne {held : SyncEntry V} {item : SyncItem V}
    (hother : ¬(item.value = held.value ∧ item.deleted = held.deleted)) :
    (SyncEntry.echo held item).dirty = held.dirty := by
  have hne : (held.value == item.value && held.deleted == item.deleted) = false := by
    rw [Bool.eq_false_iff]
    intro heq
    rw [Bool.and_eq_true, beq_iff_eq, beq_iff_eq] at heq
    exact hother ⟨heq.1.symm, heq.2.symm⟩
  rw [SyncEntry.echo, hne]
  exact Bool.and_true _

/-- An item that is not an echo of the edit leaves it as it is. -/
theorem Holds.applyItem (h : s.Holds key edit) (report : PullReport)
    (currentDaemon : SortedMap String String) {item : SyncItem V}
    (hitem : item.key = key → item.deviceId = s.deviceId →
      ¬(item.value = edit.value ∧ item.deleted = edit.deleted)) :
    (applyItem catalog currentDaemon (s, report) item).1.Holds key edit := by
  obtain ⟨held, hheld, hvalue, hdeleted, hedited, hdirty⟩ := h.entry
  rcases applyItem_cases catalog s report currentDaemon item with
    heq | ⟨entry, hentry, hdevice, heq⟩ | ⟨spec, hclean, heq⟩
  · rw [heq]
    exact h
  · rw [heq]
    by_cases hkey : key = item.key
    · subst hkey
      rw [hheld] at hentry
      obtain rfl := Option.some.inj hentry
      have hother := hitem rfl hdevice
      rw [← hvalue, ← hdeleted] at hother
      exact ⟨⟨SyncEntry.echo held item, by rw [SortedMap.get?_insert, if_pos rfl], hvalue,
        hdeleted, hedited, (echo_of_ne hother).trans hdirty⟩, h.preference⟩
    · exact h.congr (by rw [SortedMap.get?_insert, if_neg hkey]) rfl
  · have hne : key ≠ item.key := by
      rintro rfl
      rw [hclean held hheld] at hdirty
      cases hdirty
    rw [heq]
    have hframe := takeItem_of_ne catalog s report currentDaemon spec hne
    exact h.congr hframe.1 hframe.2

private theorem Holds.applyPull (h : s.Holds key edit) (currentDaemon : SortedMap String String)
    {items : List (SyncItem V)}
    (hitems : ∀ item ∈ items, item.key = key → item.deviceId = s.deviceId →
      ¬(item.value = edit.value ∧ item.deleted = edit.deleted)) :
    (s.applyPull catalog items currentDaemon).1.Holds key edit := by
  suffices hfold : ∀ acc : AgentState V × PullReport, acc.1.Holds key edit →
      acc.1.deviceId = s.deviceId →
      (items.foldl (AgentState.applyItem catalog currentDaemon) acc).1.Holds key edit from
    hfold _ h rfl
  induction items with
  | nil => exact fun _ hacc _ ↦ hacc
  | cons item items ih =>
    intro acc hacc hdevice
    refine ih (fun item' hmem ↦ hitems item' (List.mem_cons_of_mem _ hmem)) _ ?_ ?_
    · refine hacc.applyItem acc.2 currentDaemon fun hkey hown ↦ ?_
      exact hitems item (List.mem_cons_self ..) hkey (hown.trans hdevice)
    · exact (congrArg AgentState.deviceId (rest_applyItem catalog currentDaemon acc item)).trans
        hdevice

omit [DecidableEq V] in
private theorem Holds.seedKey (h : s.Holds key edit) (remoteKeys : List String)
    (currentDaemon : SortedMap String String) (resync : Bool) (key' : String) :
    (seedKey catalog remoteKeys currentDaemon resync s key').Holds key edit := by
  unfold AgentState.seedKey
  split
  · exact h
  split
  · exact h
  split
  · next entry hentry =>
    split
    · by_cases hkey : key = key'
      · subst hkey
        obtain ⟨held, hheld, hvalue, hdeleted, hedited, -⟩ := h.entry
        rw [hheld] at hentry
        obtain rfl := Option.some.inj hentry
        exact ⟨⟨{ held with dirty := true }, by rw [SortedMap.get?_insert, if_pos rfl], hvalue,
          hdeleted, hedited, rfl⟩, h.preference⟩
      · exact h.congr (by rw [SortedMap.get?_insert, if_neg hkey]) rfl
    · exact h
  · next hnone =>
    split
    · exact h
    · have hne : key ≠ key' := by
        rintro rfl
        obtain ⟨held, hheld, -⟩ := h.entry
        rw [hnone] at hheld
        cases hheld
      exact h.congr (by rw [SortedMap.get?_insert, if_neg hne]) rfl

omit [DecidableEq V] in
private theorem Holds.seedLocalValues (h : s.Holds key edit) (remoteKeys : List String)
    (currentDaemon : SortedMap String String) (resync : Bool) :
    (s.seedLocalValues catalog remoteKeys currentDaemon resync).Holds key edit := by
  suffices hfold : ∀ (candidates : List String) (s : AgentState V), s.Holds key edit →
      (candidates.foldl (AgentState.seedKey catalog remoteKeys currentDaemon resync) s).Holds
        key edit from hfold _ s h
  intro candidates
  induction candidates with
  | nil => exact fun _ hs ↦ hs
  | cons key' candidates ih =>
    exact fun s hs ↦ ih _ (hs.seedKey remoteKeys currentDaemon resync key')

/-- The entry of a key is still the one that was sent for it. -/
def Unchanged (s : AgentState V) (sent : String × SyncEntry V) : Prop :=
  ∃ entry, s.entries.get? sent.1 = some entry ∧ entry.value = sent.2.value ∧
    entry.deleted = sent.2.deleted ∧ entry.version = sent.2.version

private theorem clearSent_frame (s : AgentState V) {sent : String × SyncEntry V}
    (h : sent.1 = key → ¬s.Unchanged sent) :
    (s.clearSent sent).entries.get? key = s.entries.get? key ∧
      (s.clearSent sent).preferences = s.preferences := by
  unfold clearSent
  split
  · exact ⟨rfl, rfl⟩
  next entry hentry =>
  split
  · next hsame =>
    have hne : key ≠ sent.1 := fun hkey ↦ h hkey.symm ⟨entry, hentry, hsame⟩
    exact ⟨by rw [SortedMap.get?_insert, if_neg hne], rfl⟩
  · exact ⟨rfl, rfl⟩

/-- Clearing what was sent leaves a key alone whose entry has changed since. -/
theorem foldl_clearSent_frame {batch : List (String × SyncEntry V)}
    (h : ∀ sent ∈ batch, sent.1 = key → ¬s.Unchanged sent) :
    (batch.foldl clearSent s).entries.get? key = s.entries.get? key ∧
      (batch.foldl clearSent s).preferences = s.preferences := by
  induction batch generalizing s with
  | nil => exact ⟨rfl, rfl⟩
  | cons sent batch ih =>
    have hfirst := s.clearSent_frame (h sent (List.mem_cons_self ..))
    have hrest := ih (s := s.clearSent sent) fun sent' hmem hkey hunchanged ↦ by
      obtain ⟨entry, hentry, hsame⟩ := hunchanged
      refine h sent' (List.mem_cons_of_mem _ hmem) hkey ⟨entry, ?_, hsame⟩
      rw [← hentry, hkey, hfirst.1]
    exact ⟨hrest.1.trans hfirst.1, hrest.2.trans hfirst.2⟩

end AgentState

namespace SyncService

variable [DecidableEq V] (catalog : SettingCatalog V)

/-- Every edit stands in its entry, dirty, and in its preference until it is answered. -/
def KeepsEdits (s : SyncService V) : Prop :=
  ∀ key edit, s.edits key = some edit → edit.answered = false → s.state.Holds key edit

/-- No item of this device has the value and the flag of an edit that is not answered. -/
def NoEcho (edits : String → Option (Edit V)) (deviceId : String) (items : List (SyncItem V)) :
    Prop :=
  ∀ item ∈ items, item.deviceId = deviceId → ∀ edit, edits item.key = some edit →
    edit.answered = false → ¬(item.value = edit.value ∧ item.deleted = edit.deleted)

/-- Where the entry that was sent is unchanged, the edit is the one that was sent. -/
def SentLatest (s : SyncService V) (batch : List (String × SyncEntry V)) : Prop :=
  ∀ sent ∈ batch, s.state.Unchanged sent → ∀ edit, s.edits sent.1 = some edit →
    edit.answered = false → sent.2.editedAtMs = some edit.editedAtMs

/-- The sections that clear entries meet no later edit to the value that was sent. -/
def Undisturbed (s : SyncService V) (op : SyncOp V) : Prop :=
  match op, s.run.map SyncRun.phase with
  | .apply, some (.apply _ _ pull _) => NoEcho s.edits s.state.deviceId (parseItems pull.items)
  | .settle, some (.settle _ batch _ conflicts) =>
    s.SentLatest batch ∧ NoEcho (noteAnswered s.edits batch) s.state.deviceId conflicts
  | _, _ => True

instance (s : AgentState V) (sent : String × SyncEntry V) : Decidable (s.Unchanged sent) :=
  inferInstanceAs (Decidable (∃ entry ∈ s.entries.get? sent.1, entry.value = sent.2.value ∧
    entry.deleted = sent.2.deleted ∧ entry.version = sent.2.version))

instance (edits : String → Option (Edit V)) (deviceId : String) (items : List (SyncItem V)) :
    Decidable (NoEcho edits deviceId items) :=
  inferInstanceAs (Decidable (∀ item ∈ items, item.deviceId = deviceId →
    ∀ edit ∈ edits item.key, edit.answered = false →
      ¬(item.value = edit.value ∧ item.deleted = edit.deleted)))

instance (s : SyncService V) (batch : List (String × SyncEntry V)) :
    Decidable (s.SentLatest batch) :=
  inferInstanceAs (Decidable (∀ sent ∈ batch, s.state.Unchanged sent →
    ∀ edit ∈ s.edits sent.1, edit.answered = false → sent.2.editedAtMs = some edit.editedAtMs))

instance (s : SyncService V) (op : SyncOp V) : Decidable (s.Undisturbed op) := by
  unfold Undisturbed
  split <;> infer_instance

/-- What a run keeps: the edits, and that a setting outside the sync has none. -/
structure EditsSound (s : SyncService V) : Prop where
  kept : s.KeepsEdits
  localOnly : ∀ key, catalog.isLocalOnly s.state.localOnlyKeys key = true → s.edits key = none

variable {catalog} {s s' : SyncService V}

omit [DecidableEq V] in
private theorem EditsSound.congr (h : s.EditsSound catalog) (hedits : s'.edits = s.edits)
    (hentries : s'.state.entries = s.state.entries)
    (hpreferences : s'.state.preferences = s.state.preferences)
    (hlocal : s'.state.localOnlyKeys = s.state.localOnlyKeys) : s'.EditsSound catalog where
  kept := fun key edit hedit hopen ↦ (h.kept key edit (hedits ▸ hedit) hopen).congr
    (by rw [hentries]) (by rw [hpreferences])
  localOnly := fun key hkey ↦ hedits ▸ h.localOnly key (hlocal ▸ hkey)

omit [DecidableEq V] in
private theorem EditsSound.bindAccount (h : s.EditsSound catalog) (uid : Option String) :
    (s.bindAccount uid).EditsSound catalog := by
  by_cases hsame : s.state.accountUid = uid
  · have hstate : s.state.bindAccount uid = s.state := if_pos hsame
    exact h.congr (if_pos hsame) (congrArg _ hstate) (congrArg _ hstate) (congrArg _ hstate)
  · have hnone : (s.bindAccount uid).edits = fun _ ↦ none := if_neg hsame
    constructor
    · intro key edit hedit
      rw [hnone] at hedit
      cases hedit
    · intro key _
      rw [hnone]

omit [DecidableEq V] in
private theorem EditsSound.setLocalOnly (h : s.EditsSound catalog) (keys : List String)
    (localOnly : Bool) : (s.setLocalOnly catalog keys localOnly).EditsSound catalog := by
  unfold SyncService.setLocalOnly
  split
  · exact h
  split
  · constructor
    · intro key edit hedit hopen
      simp only at hedit
      split at hedit
      · cases hedit
      next hother =>
      refine (h.kept key edit hedit hopen).congr ?_ rfl
      obtain ⟨entry, hentry, -⟩ := (h.kept key edit hedit hopen).entry
      simp only [SortedMap.get?_mapValues, hentry, Option.map_some, if_neg hother]
    · intro key hkey
      simp only
      split
      · rfl
      next hother =>
      refine h.localOnly key ?_
      simp only [SettingCatalog.isLocalOnly, List.contains_iff_mem, List.mem_union_iff] at hkey ⊢
      exact hkey.resolve_right hother
  · refine ⟨fun key edit hedit hopen ↦ (h.kept key edit hedit hopen).congr rfl rfl, ?_⟩
    intro key hkey
    refine h.localOnly key ?_
    simp only [SettingCatalog.isLocalOnly, List.contains_iff_mem] at hkey ⊢
    exact (List.mem_filter.mp hkey).1

omit [DecidableEq V] in
private theorem get?_writePreference (state : AgentState V) (key key' : String) (value : V)
    (deleted : Bool) :
    (writePreference state key value deleted).preferences.get? key' =
      if key' = key then if deleted then none else some value
      else state.preferences.get? key' := by
  cases deleted with
  | true => exact SortedMap.get?_erase ..
  | false => exact SortedMap.get?_insert ..

omit [DecidableEq V] in
private theorem EditsSound.setLocalPreference (h : s.EditsSound catalog) (key : String) (value : V)
    (deleted : Bool) : (s.setLocalPreference key value deleted).EditsSound catalog := by
  constructor
  · intro key' edit hedit hopen
    by_cases hkey : key' = key
    · subst hkey
      simp only [SyncService.setLocalPreference, Function.update_self, Option.map_eq_some_iff]
        at hedit
      obtain ⟨edit', hedit', rfl⟩ := hedit
      refine ⟨(h.kept _ _ hedit' hopen).entry, fun _ ↦ ?_⟩
      exact (get?_writePreference ..).trans (if_pos rfl)
    · simp only [SyncService.setLocalPreference, Function.update_of_ne hkey] at hedit
      exact (h.kept key' edit hedit hopen).congr rfl ((get?_writePreference ..).trans (if_neg hkey))
  · intro key' hlocal
    have hnone := h.localOnly key' hlocal
    by_cases hkey : key' = key
    · subst hkey
      simp only [SyncService.setLocalPreference, Function.update_self, hnone, Option.map_none]
    · simpa only [SyncService.setLocalPreference, Function.update_of_ne hkey] using hnone

omit [DecidableEq V] in
/-- The call has recorded its edit, or it came to nothing. -/
theorem markRecord_cases (catalog : SettingCatalog V) (s : SyncService V) (n : Nat) (now : Int) :
    ((s.markRecord catalog n now).state = s.state ∧ (s.markRecord catalog n now).edits = s.edits) ∨
      ∃ call state, s.calls[n]? = some call ∧
        (state = s.state ∨ state = writePreference s.state call.key call.value call.deleted) ∧
        (catalog.isLocalOnly s.state.localOnlyKeys call.key = true ∧
            (s.markRecord catalog n now).state = state ∧
            (s.markRecord catalog n now).edits = s.edits ∨
          catalog.isLocalOnly s.state.localOnlyKeys call.key = false ∧
            (s.markRecord catalog n now).state = { state with
              entries := state.entries.insert call.key
                { (state.entries.get? call.key).getD (.default catalog) with
                  value := call.wire, deleted := call.deleted, dirty := true,
                  editedAtMs := some now } } ∧
            (s.markRecord catalog n now).edits = Function.update s.edits call.key (some
              { value := call.wire, deleted := call.deleted, editedAtMs := now
                owner := call.owner, preference := state.preferences.get? call.key
                answered := false })) := by
  unfold SyncService.markRecord
  split
  · exact .inl ⟨rfl, rfl⟩
  next call hcall =>
  split
  · exact .inl ⟨rfl, rfl⟩
  split
  · exact .inl ⟨rfl, rfl⟩
  · right
    generalize hstate : (if decide (call.owner = .agent ∨ call.owner = .preferences) = true then
      writePreference s.state call.key call.value call.deleted else s.state) = state
    have hwritten : state = s.state ∨
        state = writePreference s.state call.key call.value call.deleted := by
      rw [← hstate]
      split
      · exact .inr rfl
      · exact .inl rfl
    have hlocal : state.localOnlyKeys = s.state.localOnlyKeys := by
      rcases hwritten with rfl | rfl <;> rfl
    refine ⟨call, state, hcall, hwritten, ?_⟩
    simp only [hstate, hlocal]
    by_cases hout : catalog.isLocalOnly s.state.localOnlyKeys call.key = true
    · exact .inl ⟨hout, if_pos hout, if_pos hout⟩
    · exact .inr ⟨eq_false_of_ne_true hout, if_neg hout, if_neg hout⟩

omit [DecidableEq V] in
private theorem EditsSound.markRecord (h : s.EditsSound catalog) (n : Nat) (now : Int) :
    (s.markRecord catalog n now).EditsSound catalog := by
  rcases markRecord_cases catalog s n now with
    ⟨hstate, hedits⟩ | ⟨call, state, -, hwritten, hrecorded⟩
  · exact h.congr hedits (congrArg _ hstate) (congrArg _ hstate) (congrArg _ hstate)
  have hother : ∀ key, key ≠ call.key → state.preferences.get? key = s.state.preferences.get? key := by
    intro key hne
    rcases hwritten with rfl | rfl
    · rfl
    · exact (get?_writePreference ..).trans (if_neg hne)
  have hentries : state.entries = s.state.entries := by rcases hwritten with rfl | rfl <;> rfl
  have hlocal : state.localOnlyKeys = s.state.localOnlyKeys := by
    rcases hwritten with rfl | rfl <;> rfl
  rcases hrecorded with ⟨hout, hstate, hedits⟩ | ⟨hin, hstate, hedits⟩
  · -- A setting outside the sync has no edit that its preference could leave.
    constructor
    · intro key edit hedit hopen
      rw [hedits] at hedit
      have hne : key ≠ call.key := by
        rintro rfl
        rw [h.localOnly _ hout] at hedit
        cases hedit
      exact (h.kept key edit hedit hopen).congr (by rw [hstate, hentries])
        (by rw [hstate, hother key hne])
    · intro key hkey
      rw [hedits]
      refine h.localOnly key ?_
      rwa [hstate, hlocal] at hkey
  · constructor
    · intro key edit hedit hopen
      rw [hedits] at hedit
      by_cases hkey : key = call.key
      · subst hkey
        rw [Function.update_self] at hedit
        obtain rfl := Option.some.inj hedit
        rw [hstate]
        exact ⟨⟨_, (SortedMap.get?_insert ..).trans (if_pos rfl), rfl, rfl, rfl, rfl⟩, fun _ ↦ rfl⟩
      · rw [Function.update_of_ne hkey] at hedit
        refine (h.kept key edit hedit hopen).congr ?_ (by rw [hstate]; exact hother key hkey)
        rw [hstate]
        exact (SortedMap.get?_insert ..).trans ((if_neg hkey).trans (by rw [hentries]))
    · intro key hkey
      rw [hstate] at hkey
      have hkey' : catalog.isLocalOnly s.state.localOnlyKeys key = true := hlocal ▸ hkey
      have hne : key ≠ call.key := by
        rintro rfl
        rw [hin] at hkey'
        cases hkey'
      rw [hedits, Function.update_of_ne hne]
      exact h.localOnly key hkey'

section Run

variable {run : SyncRun V}

omit [DecidableEq V] in
private theorem EditsSound.endRun (h : s.EditsSound catalog) (result : Except SyncError Unit) :
    (s.endRun result).EditsSound catalog :=
  h.congr rfl rfl rfl rfl

omit [DecidableEq V] in
private theorem EditsSound.locked (h : s.EditsSound catalog) {s' : SyncService V}
    (hsection : s'.EditsSound catalog) : (s.locked run s').EditsSound catalog := by
  unfold SyncService.locked
  split
  · exact h.endRun _
  split
  · exact h.endRun _
  · exact hsection

private theorem EditsSound.apply (h : s.EditsSound catalog) (since : Nat) (firstSync : Bool)
    {pull : PullResult V} (currentDaemon : SortedMap String String)
    (hecho : NoEcho s.edits s.state.deviceId (parseItems pull.items)) :
    (s.apply catalog run since firstSync pull currentDaemon).EditsSound catalog := by
  constructor
  · intro key edit hedit hopen
    rw [edits_apply] at hedit
    have hpulled : (s.state.applyPull catalog (parseItems pull.items) currentDaemon).1.Holds key
        edit := by
      refine (h.kept key edit hedit hopen).applyPull currentDaemon fun item hmem hkey hown ↦ ?_
      exact hecho item hmem hown edit (hkey ▸ hedit) hopen
    rw [state_apply]
    split
    · exact hpulled.seedLocalValues _ _ _
    · exact hpulled
  · intro key hkey
    have hlocal := congrArg AgentState.localOnlyKeys
      (rest_apply catalog s run since firstSync pull currentDaemon)
    rw [edits_apply]
    exact h.localOnly key (hlocal ▸ hkey)

/-- An edit that a batch leaves unanswered was open before, and is not the one that was sent. -/
theorem noteAnswered_open {edits : String → Option (Edit V)}
    {batch : List (String × SyncEntry V)} {key : String} {edit : Edit V}
    (hedit : noteAnswered edits batch key = some edit) (hopen : edit.answered = false) :
    edits key = some edit ∧ ∀ sent ∈ batch, sent.1 = key → ¬(sent.2.value = edit.value ∧
      sent.2.deleted = edit.deleted ∧ sent.2.editedAtMs = some edit.editedAtMs) := by
  obtain ⟨edit', hedit', rfl⟩ := Option.map_eq_some_iff.mp hedit
  rw [Bool.or_eq_false_iff] at hopen
  obtain ⟨hbefore, hsent⟩ := hopen
  have hsame : { edit' with answered := edit'.answered || batch.any fun sent ↦
      sent.1 = key ∧ sent.2.value = edit'.value ∧ sent.2.deleted = edit'.deleted ∧
        sent.2.editedAtMs = some edit'.editedAtMs } = edit' := by
    rw [hsent, Bool.or_false]
  refine ⟨by rw [hsame, hedit'], fun sent hmem hkey hboth ↦ ?_⟩
  exact List.any_eq_false.mp hsent sent hmem (decide_eq_true ⟨hkey, hboth⟩)

private theorem EditsSound.settle (h : s.EditsSound catalog) (work : SyncWork V)
    {batch : List (String × SyncEntry V)} (revision : Nat) {conflicts : List (SyncItem V)}
    (hsent : s.SentLatest batch)
    (hecho : NoEcho (noteAnswered s.edits batch) s.state.deviceId conflicts) :
    (s.settle catalog run work batch revision conflicts).EditsSound catalog := by
  constructor
  · intro key edit hedit hopen
    rw [edits_settle] at hedit
    obtain ⟨hbefore, hnotSent⟩ := noteAnswered_open hedit hopen
    have hholds := h.kept key edit hbefore hopen
    obtain ⟨held, hheld, hvalue, hdeleted, hedited, -⟩ := hholds.entry
    -- What was sent is not this edit, so its entry has changed since.
    have hchanged : ∀ sent ∈ batch, sent.1 = key → ¬s.state.Unchanged sent := by
      rintro sent hmem rfl hunchanged
      obtain ⟨entry, hentry, hvalue', hdeleted', -⟩ := id hunchanged
      rw [hheld] at hentry
      obtain rfl := Option.some.inj hentry
      refine hnotSent sent hmem rfl ⟨hvalue'.symm.trans hvalue, hdeleted'.symm.trans hdeleted, ?_⟩
      exact hsent sent hmem hunchanged edit hbefore hopen
    have hframe := AgentState.foldl_clearSent_frame hchanged
    have hcleared : (batch.foldl AgentState.clearSent s.state).Holds key edit :=
      hholds.congr hframe.1 (by rw [hframe.2])
    have hdevice := congrArg AgentState.deviceId
      (AgentState.rest_foldl_clearSent s.state batch)
    rw [state_settle]
    refine hcleared.applyPull _ fun item hmem hkey hown ↦ ?_
    exact hecho item hmem (hown.trans hdevice) edit (hkey ▸ hedit) hopen
  · intro key hkey
    have hlocal := congrArg AgentState.localOnlyKeys
      (rest_settle catalog s run work batch revision conflicts)
    have hnone := h.localOnly key (hlocal ▸ hkey)
    rw [edits_settle, noteAnswered, hnone]
    rfl

private theorem EditsSound.syncStep (h : s.EditsSound catalog) (hrun : s.run = some run)
    {op : SyncOp V} (hop : s.Undisturbed op) : (s.syncStep catalog run op).EditsSound catalog := by
  have hframe : ∀ {s' : SyncService V}, s'.edits = s.edits → s'.state.entries = s.state.entries →
      s'.state.preferences = s.state.preferences →
      s'.state.localOnlyKeys = s.state.localOnlyKeys → s'.EditsSound catalog := h.congr
  unfold SyncService.syncStep
  cases op with
  | pulled answer =>
    simp only
    split
    · exact hframe rfl rfl rfl rfl
    · exact h
  | apply =>
    simp only
    split
    · next hphase =>
      simp only [Undisturbed, hrun, Option.map_some, hphase] at hop
      exact h.locked (h.apply _ _ _ hop)
    · exact h
  | patched reached =>
    simp only
    split
    · split
      · exact h.endRun _
      split
      · exact h.endRun _
      split <;> exact hframe rfl rfl rfl rfl
    · exact h
  | pushed answer =>
    simp only
    split
    · split
      · exact h
      · exact h.endRun _
      · exact hframe rfl rfl rfl rfl
    · exact h
  | settle =>
    simp only
    split
    · next hphase =>
      simp only [Undisturbed, hrun, Option.map_some, hphase] at hop
      exact h.locked (h.settle _ _ hop.1 hop.2)
    · exact h
  | store =>
    simp only
    split
    · split
      · exact h.locked (hframe rfl rfl rfl rfl)
      · exact h
    · exact h
  | finish =>
    simp only
    split
    · split
      · exact h.endRun _
      · unfold SyncService.finish
        simp only
        split <;> exact hframe rfl rfl rfl rfl
    · exact h
  | persisted ok =>
    simp only
    split
    · exact h.endRun _
    · exact h
  | failed e =>
    simp only
    split
    · exact h.endRun _
    · exact h.endRun _
    · exact h
  | _ => exact h

end Run

omit [DecidableEq V] in
private theorem EditsSound.mark (h : s.EditsSound catalog) (key : String)
    (value : V) (deleted : Bool) : (s.mark catalog key value deleted).EditsSound catalog := by
  unfold SyncService.mark
  split
  · exact h
  split
  · exact h.setLocalPreference key value deleted
  split
  · exact h
  simp only
  split <;> exact h.congr rfl rfl rfl rfl

private theorem EditsSound.step (h : s.EditsSound catalog) {op : SyncOp V}
    (hop : s.Undisturbed op) : (s.step catalog op).EditsSound catalog := by
  have hframe : ∀ {s' : SyncService V}, s'.edits = s.edits → s'.state.entries = s.state.entries →
      s'.state.preferences = s.state.preferences →
      s'.state.localOnlyKeys = s.state.localOnlyKeys → s'.EditsSound catalog := h.congr
  have hrun : ∀ {s' : SyncService V}, (s.run = none → s' = s) →
      (∀ run, s.run = some run → s' = s.syncStep catalog run op) → s'.EditsSound catalog := by
    intro s' hnone hsome
    cases hrun : s.run with
    | none => exact hnone hrun ▸ h
    | some run => exact hsome run hrun ▸ h.syncStep hrun hop
  cases op with
  | login uid =>
    have hsigned : EditsSound catalog { s with epoch := s.epoch + 1, userId := some uid } :=
      hframe rfl rfl rfl rfl
    exact hsigned.bindAccount _
  | logout =>
    have hsigned : EditsSound catalog { s with epoch := s.epoch + 1, userId := none } :=
      hframe rfl rfl rfl rfl
    exact hsigned.bindAccount _
  | setEnabled enabled => cases enabled <;> exact hframe rfl rfl rfl rfl
  | setLocalOnly keys localOnly => exact h.setLocalOnly keys localOnly
  | setLocalPreference key value deleted => exact h.setLocalPreference key value deleted
  | mark key value deleted => exact h.mark key value deleted
  | markPatch n reached =>
    simp only [SyncService.step, SyncService.markPatch]
    split
    · exact h
    split
    · exact h
    split
    · exact hframe rfl rfl rfl rfl
    split <;> exact hframe rfl rfl rfl rfl
  | markRecord n now => exact h.markRecord n now
  | publish => exact hframe rfl rfl rfl rfl
  | patchDaemon values => exact hframe rfl rfl rfl rfl
  | forceFullPull => exact hframe rfl rfl rfl rfl
  | recordError e => exact hframe rfl rfl rfl rfl
  | begin =>
    simp only [SyncService.step, SyncService.begin]
    split
    · next uid _ _ => exact (h.bindAccount (some uid)).congr rfl rfl rfl rfl
    · exact h
  | _ =>
    apply hrun
    · intro hnone
      simp only [SyncService.step, hnone]
    · intro run hsome
      simp only [SyncService.step, hsome]

/-- In a run whose clearing sections meet no later edit to the value that was sent or that comes
back, every edit stays dirty until a push of exactly this edit is answered. -/
theorem keepsEdits (catalog : SettingCatalog V) (state : AgentState V) (userId : Option String)
    (daemon : DaemonConfig) (ops : List (SyncOp V))
    (h : EveryStep (step catalog) Undisturbed (new state userId daemon) ops) :
    (Base.run (step catalog) (new state userId daemon) ops).KeepsEdits := by
  have hnew : (new state userId daemon).EditsSound catalog :=
    ⟨fun _ _ hedit ↦ (nomatch hedit), fun _ _ ↦ rfl⟩
  exact (run_invariant (fun _ _ hs hop ↦ hs.step hop) hnew h).kept

/-- One preference. -/
def sampleCatalog : SettingCatalog Nat where
  specs := [{ key := "general.locale", owner := .preferences, storageKey := "general.locale" }]
  syncScopeKey := id
  isCustomTheme := fun _ ↦ false
  null := 0
  validateValue := fun _ _ ↦ true
  valueToDaemonConfig := fun _ _ ↦ none
  daemonConfigToValue := fun _ _ ↦ none
  normalizeDaemonConfigValue := fun _ _ ↦ none
  daemonConfigDefault := fun _ ↦ ""
  categoriesToWire := some
  mergeCategoriesFromWire := fun value _ ↦ some value

/-- A device on which nobody has signed in yet. -/
def sampleState : AgentState Nat where
  deviceId := "this"
  accountUid := none
  revision := 0
  syncPulled := false
  entries := SortedMap.empty
  stash := SortedMap.empty
  localOnlyKeys := []
  preferences := SortedMap.empty
  preferencesRevision := 0
  lastError := none

/-- An edit is pushed, and while its answer is on the way others are made. -/
def sampleRun (others : List (SyncOp Nat)) : List (SyncOp Nat) :=
  [.login "user", .mark "general.locale" 1 false, .markRecord 0 10, .begin,
    .pulled { revision := 1, resync := false, items := [] }, .apply] ++ others ++
  [.pushed { revision := some 2, conflicts := [] }, .settle]

/-- An edit during a push of another is kept. -/
theorem keepsEdits_sample :
    (Base.run (step sampleCatalog) (new sampleState none ⟨0, SortedMap.empty⟩)
      (sampleRun [.mark "general.locale" 2 false, .markRecord 0 20])).KeepsEdits :=
  keepsEdits sampleCatalog sampleState none ⟨0, SortedMap.empty⟩ _ (by decide +kernel)

/-- An edit to another value and back: the answer to the first edit clears the third. -/
theorem edit_lost :
    ¬(Base.run (step sampleCatalog) (new sampleState none ⟨0, SortedMap.empty⟩)
      (sampleRun [.mark "general.locale" 2 false, .markRecord 0 20,
        .mark "general.locale" 1 false, .markRecord 0 30])).KeepsEdits := by
  intro h
  have hedit : (Base.run (step sampleCatalog) (new sampleState none ⟨0, SortedMap.empty⟩)
      (sampleRun [.mark "general.locale" 2 false, .markRecord 0 20,
        .mark "general.locale" 1 false, .markRecord 0 30])).edits "general.locale" = some
      { value := 1, deleted := false, editedAtMs := 30, owner := .preferences
        preference := some 1, answered := false } := by decide +kernel
  obtain ⟨entry, hentry, -, -, -, hdirty⟩ := (h _ _ hedit rfl).entry
  have hclean : (Base.run (step sampleCatalog) (new sampleState none ⟨0, SortedMap.empty⟩)
      (sampleRun [.mark "general.locale" 2 false, .markRecord 0 20,
        .mark "general.locale" 1 false, .markRecord 0 30])).state.entries.get? "general.locale" =
      some { value := 1, version := 0, dirty := false, deleted := false
             editedAtMs := some 30 } := by decide +kernel
  rw [hclean] at hentry
  cases hentry
  cases hdirty

end SyncService

end Agent
