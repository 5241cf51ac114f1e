import FluxDown.Protocol.ServerTables

/-!
# Where a paged load ends

Library `Protocol`. When every page is there, the tables are installed and all frames are taken
from the snapshot's number on. The client then has the rows of the server, its queue table and the
rest of its projection.
-/

namespace Protocol

open Base Engine.QueueOrder

variable {P : Payloads}

/-! ## The rest of the projection -/

/-- The projection without task tables and queue. -/
def DaemonSnapshot.besideTables (snapshot : DaemonSnapshot P) : DaemonSnapshot P :=
  { snapshot with
    tasks := []
    taskRuntime := SortedMap.empty
    taskTotal := none
    queuePositions := []
    queueTotal := none }

/-- What an event does beside the tables does not depend on them. -/
theorem besideTables_apply (snapshot : DaemonSnapshot P) (event : DaemonEvent P) :
    (applyDaemonEvent snapshot event).besideTables =
      (applyDaemonEvent snapshot.besideTables event).besideTables := by
  cases event with
  | taskRuntimeChanged runtime =>
    simp only [applyDaemonEvent]
    split <;> split <;> rfl
  | tasksChanged tasks =>
    have hkeep : ∀ snapshot : DaemonSnapshot P,
        (tasks.foldl applyTaskChanged snapshot).besideTables = snapshot.besideTables := by
      apply foldl_keeps (g := DaemonSnapshot.besideTables) (f := applyTaskChanged)
      exact fun _ _ ↦ rfl
    simp only [applyDaemonEvent, hkeep]
    rfl
  | engine message =>
    cases message with
    | taskProgress progress => simp only [applyDaemonEvent, applyEngineMessage]; split <;> rfl
    | segmentProgress taskId totalBytes segments =>
      simp only [applyDaemonEvent, applyEngineMessage]
      split <;> split <;> rfl
    | fileMissingChanged updates =>
      have hkeep : ∀ snapshot : DaemonSnapshot P,
          (updates.foldl (fun snapshot update ↦
            snapshot.updateTask update.taskId update.markTask) snapshot).besideTables =
            snapshot.besideTables := by
        apply foldl_keeps (g := DaemonSnapshot.besideTables) (f := fun snapshot update ↦
          DaemonSnapshot.updateTask snapshot update.taskId (FileMissingUpdateDto.markTask update))
        exact fun _ _ ↦ rfl
      simp only [applyDaemonEvent, applyEngineMessage, hkeep]
      rfl
    | _ => rfl
  | _ => rfl

private theorem besideTables_run {snapshot snapshot' : DaemonSnapshot P}
    (events : List (DaemonEvent P))
    (h : snapshot.besideTables = snapshot'.besideTables) :
    (run applyDaemonEvent snapshot events).besideTables =
      (run applyDaemonEvent snapshot' events).besideTables := by
  induction events generalizing snapshot snapshot' with
  | nil => exact h
  | cons event events ih =>
    apply ih
    rw [besideTables_apply, h, ← besideTables_apply]

/-! ## The queue -/

private theorem queue_run (snapshot : DaemonSnapshot P) (events : List (DaemonEvent P)) :
    (run applyDaemonEvent snapshot events).queuePositions =
      events.foldl queueAfter snapshot.queuePositions := by
  induction events generalizing snapshot with
  | nil => rfl
  | cons event events ih => rw [run_cons, ih, List.foldl_cons, queue_apply]

private theorem sorted_sortEntries (entries : List QueueOrderEntryDto) :
    (DaemonSnapshot.sortEntries entries).Pairwise fun a b ↦ a.order ≤ b.order := by
  have hsorted : (DaemonSnapshot.sortEntries entries).Pairwise fun a b ↦
      decide (a.order < b.order ∨ a.order = b.order ∧ a.taskId ≤ b.taskId) = true := by
    apply List.pairwise_mergeSort
    · intro a b c hab hbc
      simp only [decide_eq_true_eq] at hab hbc ⊢
      rcases hab with hab | ⟨hab, hid⟩
      · rcases hbc with hbc | ⟨hbc, -⟩
        · exact .inl (hab.trans hbc)
        · exact .inl (hbc ▸ hab)
      · rcases hbc with hbc | ⟨hbc, hid'⟩
        · exact .inl (hab ▸ hbc)
        · exact .inr ⟨hab.trans hbc, hid.trans hid'⟩
    · intro a b
      simp only [Bool.or_eq_true, decide_eq_true_eq]
      rcases lt_trichotomy a.order b.order with hlt | heq | hgt
      · exact .inl (.inl hlt)
      · rcases le_total a.taskId b.taskId with hid | hid
        · exact .inl (.inr ⟨heq, hid⟩)
        · exact .inr (.inr ⟨heq.symm, hid⟩)
      · exact .inr (.inl hgt)
  apply hsorted.imp
  intro a b hab
  rw [decide_eq_true_eq] at hab
  omega

/-- The event puts a queue table in place of the other. -/
def DaemonEvent.newQueue : DaemonEvent P → Bool
  | .engine (.queuePositionsChanged _) => true
  | _ => false

/-- After a new queue table the old one does not matter. -/
theorem foldl_queueAfter_of_newQueue {events : List (DaemonEvent P)}
    (h : ∃ event ∈ events, event.newQueue = true) (positions positions' : List QueuePositionDto) :
    events.foldl queueAfter positions = events.foldl queueAfter positions' := by
  induction events generalizing positions positions' with
  | nil =>
    obtain ⟨event, hevent, -⟩ := h
    cases hevent
  | cons event events ih =>
    obtain ⟨new, hmem, hnew⟩ := h
    rcases List.mem_cons.mp hmem with rfl | hmem
    · have hsame : queueAfter positions new = queueAfter positions' new := by
        cases new with
        | engine message => cases message <;> first | rfl | cases hnew
        | _ => cases hnew
      rw [List.foldl_cons, List.foldl_cons, hsame]
    · exact ih ⟨new, hmem, hnew⟩ _ _

/-- Events that place no task of the set leave its entries alone. -/
theorem agreeOn_foldl {ids : String → Prop} {events : List (DaemonEvent P)}
    (hreload : ∀ event ∈ events, event.reloads = false)
    (hnew : ∀ event ∈ events, event.newQueue = false)
    (hids : ∀ id, ids id → ∀ event ∈ events, ¬Places event id) (positions : List QueuePositionDto) :
    AgreeOn ids (events.foldl queueAfter positions) positions := by
  induction events generalizing positions with
  | nil => exact fun _ _ ↦ Iff.rfl
  | cons event events ih =>
    rw [List.forall_mem_cons] at hreload hnew
    have hrest := ih hreload.2 hnew.2 (fun id hid e he ↦ hids id hid e (List.mem_cons_of_mem _ he))
      (queueAfter positions event)
    intro entry hid
    rw [List.foldl_cons, hrest entry hid]
    cases event with
    | snapshotReplaced replacement => cases hreload.1
    | tablesReloading tasks queue => cases hreload.1
    | engine message =>
      cases message with
      | queuePositionsChanged rows => cases hnew.1
      | queueOrderChanged removed added =>
        have hplaces := hids entry.taskId hid _ List.mem_cons_self
        simp only [Places, not_or, ne_eq, not_not] at hplaces
        rw [queueAfter, applyQueueOrder, map_entryOf_renumber, mem_spliceQueue]
        simp [hplaces.1, hplaces.2]
      | _ => exact Iff.rfl
    | _ => exact Iff.rfl

/-! ## The loaded tables -/

section Finish

variable {base : DaemonSnapshot P} {events : List (DaemonEvent P)} {epoch : String} {sequence : Nat}
  {load : TableLoad P}

/-- Every page is there. -/
def TableSync.Finished (sync : TableSync P) : Prop := sync.pending = none

private theorem SectionRead.done {α κ : Type} [LinearOrder κ] {rank : α → κ}
    {toCursor : κ → PageCursor} {Seen : List α → Prop} {total : Option Nat} {sect : Section α}
    (h : SectionRead rank toCursor Seen total sect)
    (hfinished : (sect.wanted && !sect.done) = false) : sect.done = true := by
  cases hwanted : sect.wanted with
  | false => exact (h.unwanted hwanted).1
  | true => simpa [hwanted] using hfinished

/-- What was read of each rank is what some table seen had of it. -/
theorem SectionRead.all {α κ : Type} [LinearOrder κ] {rank : α → κ}
    {toCursor : κ → PageCursor} {Seen : List α → Prop} {total : Option Nat} {sect : Section α}
    (h : SectionRead rank toCursor Seen total sect) (hdone : sect.done = true) :
    Increasing rank sect.rows ∧ ∀ c, ∃ table, Seen table ∧
      ∀ a, rank a = c → (a ∈ sect.rows ↔ a ∈ table) := by
  obtain ⟨cursor, -, hread⟩ := h.read
  rw [hdone] at hread
  exact ⟨hread.increasing, fun c ↦ hread.seen c (.inl rfl)⟩

private theorem TableSync.Finished.done (hload : Loading base events epoch sequence load)
    (h : load.sync.Finished) : load.sync.tasks.done = true ∧ load.sync.queue.done = true := by
  unfold TableSync.Finished TableSync.pending at h
  cases htasks : (load.sync.tasks.wanted && !load.sync.tasks.done) with
  | true => simp [htasks] at h
  | false =>
    cases hqueue : (load.sync.queue.wanted && !load.sync.queue.done) with
    | true => simp [htasks, hqueue] at h
    | false => exact ⟨hload.tasks.done htasks, hload.queue.done hqueue⟩

/-- A section that is not wanted has no number. -/
theorem SectionRead.total_eq_none {α κ : Type} [LinearOrder κ] {rank : α → κ}
    {toCursor : κ → PageCursor} {Seen : List α → Prop} {total : Option Nat} {sect : Section α}
    (h : SectionRead rank toCursor Seen total sect) (hwanted : sect.wanted = false) :
    total = none := by
  have htotal := h.wanted
  rw [hwanted] at htotal
  simpa using htotal.symm

/-- The client takes all events since the snapshot. -/
theorem Loading.client_eq (hload : Loading base events epoch sequence load) :
    load.client base.pagedHeader =
      some (Base.run applyDaemonEvent (load.sync.finish base.pagedHeader).1 events) := by
  have hreplay := replayDaemon_framesAfter epoch sequence events
    (load.sync.finish base.pagedHeader).1
  rw [← hload.frames, ← hload.inEpoch, ← hload.startsAt] at hreplay
  exact hreplay

/-- The tables are put in, also an empty one that was not to be loaded. -/
theorem finish_eq (hload : Loading base events epoch sequence load) :
    let finished := (load.sync.finish base.pagedHeader).1
    finished.tasks = load.sync.tasks.rows ∧
      finished.queuePositions =
        renumber ((DaemonSnapshot.sortEntries load.sync.queue.rows).map unrankedRow) ∧
      finished.Loaded ∧ finished.besideTables = base.besideTables := by
  have hempty : renumber ((DaemonSnapshot.sortEntries []).map unrankedRow) = [] := by
    simp [DaemonSnapshot.sortEntries, renumber]
  unfold TableSync.finish
  cases htasks : load.sync.tasks.wanted with
  | true =>
    cases hqueue : load.sync.queue.wanted with
    | true => exact ⟨rfl, rfl, rfl, rfl⟩
    | false =>
      rw [(hload.queue.unwanted hqueue).2]
      have hloaded : (none, base.pagedHeader.queueTotal) =
          ((none, none) : Option Nat × Option Nat) := by
        rw [hload.queue.total_eq_none hqueue]
      exact ⟨rfl, hempty.symm, hloaded, rfl⟩
  | false =>
    rw [(hload.tasks.unwanted htasks).2]
    have htaskTotal := hload.tasks.total_eq_none htasks
    cases hqueue : load.sync.queue.wanted with
    | true =>
      have hloaded : (base.pagedHeader.taskTotal, none) =
          ((none, none) : Option Nat × Option Nat) := by rw [htaskTotal]
      exact ⟨rfl, rfl, hloaded, rfl⟩
    | false =>
      rw [(hload.queue.unwanted hqueue).2]
      have hloaded : base.pagedHeader.Loaded := by
        rw [DaemonSnapshot.Loaded, htaskTotal, hload.queue.total_eq_none hqueue]
      exact ⟨rfl, hempty.symm, hloaded, rfl⟩

/-- A row that was loaded is the row at some time since the snapshot. -/
theorem loaded_row (hload : Loading base events epoch sequence load) (hbase : WellKept base)
    (hevents : EveryStep applyDaemonEvent Publishable base events) (hdone : load.sync.Finished)
    (id : String) :
    ∃ before after, events = before ++ after ∧
      lastRow? TaskDto.taskId id load.sync.tasks.rows =
        before.foldl (rowAfter id) (base.task id) := by
  obtain ⟨hincreasing, hseen⟩ := hload.tasks.all (hdone.done hload).1
  obtain ⟨table, ⟨before, after, rfl, rfl⟩, hmem⟩ := hseen id
  have htable := (hbase.run (everyStep_append.mp hevents).1).distinct
  have hrows : (load.sync.tasks.rows.map TaskDto.taskId).Nodup :=
    (List.pairwise_map.mpr hincreasing).imp ne_of_lt
  refine ⟨before, after, rfl, ?_⟩
  rw [← task_run]
  apply Option.ext
  intro row
  show _ ↔ lastRow? TaskDto.taskId id _ = some row
  rw [lastRow?_eq_some_iff hrows, lastRow?_eq_some_iff htable]
  constructor
  · rintro ⟨hrow, hid⟩
    exact ⟨(hmem row hid).mp hrow, hid⟩
  · rintro ⟨hrow, hid⟩
    exact ⟨(hmem row hid).mpr hrow, hid⟩

/-- The loaded queue has the entries of the snapshot of all tasks that no event places. -/
theorem loaded_queue (hload : Loading base events epoch sequence load)
    (hreload : ∀ event ∈ events, event.reloads = false)
    (hnew : ∀ event ∈ events, event.newQueue = false) (hbase : Complete base)
    (hdone : load.sync.Finished) :
    Follows (fun id ↦ ∀ event ∈ events, ¬Places event id)
      (renumber ((DaemonSnapshot.sortEntries load.sync.queue.rows).map unrankedRow))
      base.queuePositions := by
  obtain ⟨hincreasing, hseen⟩ := hload.queue.all (hdone.done hload).2
  have hperm : (DaemonSnapshot.sortEntries load.sync.queue.rows).Perm load.sync.queue.rows :=
    List.mergeSort_perm _ _
  have hentries : ((DaemonSnapshot.sortEntries load.sync.queue.rows).map unrankedRow).map entryOf =
      DaemonSnapshot.sortEntries load.sync.queue.rows := by
    rw [List.map_map]
    exact List.map_id _
  refine ⟨⟨?_, ?_, ranked_renumber _⟩, hbase.ranked, ?_⟩
  · rw [map_entryOf_renumber, hentries]
    exact sorted_sortEntries _
  · rw [map_entryOf_renumber, hentries, hperm.nodup_iff]
    exact hincreasing.nodup
  · intro entry hplaced
    rw [map_entryOf_renumber, hentries, hperm.mem_iff]
    obtain ⟨table, ⟨before, after, rfl, rfl⟩, hmem⟩ := hseen entry.order
    rw [hmem entry rfl, queue_run]
    have hagree : AgreeOn (fun id ↦ ∀ event ∈ before ++ after, ¬Places event id)
        (before.foldl queueAfter base.queuePositions) base.queuePositions := by
      apply agreeOn_foldl
      · exact fun event hevent ↦ hreload event (List.mem_append_left after hevent)
      · exact fun event hevent ↦ hnew event (List.mem_append_left after hevent)
      · exact fun id hid event hevent ↦ hid event (List.mem_append_left after hevent)
    exact hagree entry hplaced

private theorem nodup_run {snapshot : DaemonSnapshot P} {events : List (DaemonEvent P)}
    (h : ∀ event ∈ events, event.reloads = false ∧ ∀ ids ∈ event.newTable, ids.Nodup)
    (hnodup : (snapshot.tasks.map TaskDto.taskId).Nodup) :
    ((run applyDaemonEvent snapshot events).tasks.map TaskDto.taskId).Nodup := by
  have hstep : ∀ (snapshot : DaemonSnapshot P) (event : DaemonEvent P),
      (snapshot.tasks.map TaskDto.taskId).Nodup →
        (event.reloads = false ∧ ∀ ids ∈ event.newTable, ids.Nodup) →
          ((applyDaemonEvent snapshot event).tasks.map TaskDto.taskId).Nodup :=
    fun _ _ hnodup hevent ↦ nodup_applyDaemonEvent hevent.1 hevent.2 hnodup
  exact run_invariant hstep hnodup
    (EveryStep.of_forall_mem (fun event hevent _ ↦ h event hevent) _)

private theorem loaded_run {snapshot : DaemonSnapshot P} {events : List (DaemonEvent P)}
    (h : snapshot.Loaded) (hreload : ∀ event ∈ events, event.reloads = false) :
    (run applyDaemonEvent snapshot events).Loaded := by
  have hstep : ∀ (snapshot : DaemonSnapshot P) (event : DaemonEvent P), snapshot.Loaded →
      event.reloads = false → (applyDaemonEvent snapshot event).Loaded :=
    fun _ _ hloaded hnone ↦ hloaded.apply hnone
  exact run_invariant hstep h
    (EveryStep.of_forall_mem (fun event hevent _ ↦ hreload event hevent) _)

/-- The queue the client ends with. -/
theorem queue_converges (hload : Loading base events epoch sequence load)
    (hevents : EveryStep applyDaemonEvent Publishable base events) (hbase : Complete base)
    (hdone : load.sync.Finished) :
    events.foldl queueAfter
        (renumber ((DaemonSnapshot.sortEntries load.sync.queue.rows).map unrankedRow)) =
      events.foldl queueAfter base.queuePositions := by
  have hreload : ∀ event ∈ events, event.reloads = false :=
    fun event hevent ↦ (publishable_forall hevents event hevent).1
  by_cases hnew : ∃ event ∈ events, event.newQueue = true
  · exact foldl_queueAfter_of_newQueue hnew _ _
  · have hnone : ∀ event ∈ events, event.newQueue = false := by
      intro event hevent
      by_contra h
      exact hnew ⟨event, hevent, Bool.not_eq_false _ ▸ h⟩
    have hfollows := loaded_queue hload hreload hnone hbase hdone
    rcases Follows.foldl (.inr hfollows) hreload with heq | hfollows
    · exact heq
    · have hserver := (hbase.toWellKept.run hevents).inOrder
      rw [queue_run] at hserver
      apply hfollows.tidy.eq_of_agree hfollows.ranked hserver
      -- each task is placed by some event or by none
      intro entry _
      apply hfollows.agree entry
      by_cases hplaced : ∃ event ∈ events, Places event entry.taskId
      · exact .inr hplaced
      · exact .inl fun event hevent h ↦ hplaced ⟨event, hevent, h⟩

end Finish

/-! ## The client ends where the server is -/

section Converges

variable {base : DaemonSnapshot P} {epoch : String} {sequence : Nat} {load load' : TableLoad P}

/-- Whatever the server takes between the pages, and whatever the sizes of the pages, a load that
has every page ends with the task rows, the queue table and the rest of the server's projection. -/
theorem table_sync_converges (hbase : Complete base)
    (hstart : TableLoad.start base epoch sequence = some load) {actions : List (LoadAction P)}
    (hrun : load.run actions = some load')
    (hevents : EveryStep applyDaemonEvent Publishable base (TableLoad.published actions))
    (hdone : load'.sync.Finished) :
    ∃ client, load'.client base.pagedHeader = some client ∧ client.Loaded ∧
      (client.tasks.map TaskDto.taskId).Nodup ∧ (∀ id, client.task id = load'.server.task id) ∧
      client.queuePositions = load'.server.queuePositions ∧
      client.besideTables = load'.server.besideTables := by
  have hload : Loading base (TableLoad.published actions) epoch sequence load' :=
    (Loading.start hstart).run hbase.toWellKept hrun hevents
  generalize TableLoad.published actions = events at hevents hload
  have hpublishable := publishable_forall hevents
  have hreload : ∀ event ∈ events, event.reloads = false :=
    fun event hevent ↦ (hpublishable event hevent).1
  obtain ⟨htasks, hqueue, hloaded, hbeside⟩ := finish_eq hload
  refine ⟨_, hload.client_eq, loaded_run hloaded hreload, ?_, ?_, ?_, ?_⟩
  · apply nodup_run hpublishable
    rw [htasks]
    have hincreasing := (hload.tasks.all (hdone.done hload).1).1
    exact (List.pairwise_map.mpr hincreasing).imp ne_of_lt
  · intro id
    obtain ⟨before, after, rfl, hrow⟩ := loaded_row hload hbase.toWellKept hevents hdone id
    rw [hload.server, task_run, task_run, DaemonSnapshot.task, htasks, hrow, replay_rows]
  · rw [hload.server, queue_run, queue_run, hqueue]
    exact queue_converges hload hevents hbase hdone
  · rw [hload.server]
    exact besideTables_run events hbeside

/-! ### A task that is deleted between the pages of its table -/

/-- A table whose rows are in order is read as it stands. -/
theorem tasksAfter_of_sorted {snapshot : DaemonSnapshot P}
    (hsorted : snapshot.tasks.Pairwise fun a b ↦ a.taskId ≤ b.taskId) (cursor : Option String) :
    snapshot.tasksAfter cursor =
      snapshot.tasks.filter fun task ↦ cursor.all fun cursor ↦ decide (cursor < task.taskId) := by
  rw [DaemonSnapshot.tasksAfter, sortByRank, List.mergeSort_of_pairwise]
  exact (hsorted.filter _).imp fun hle ↦ decide_eq_true hle

/-- A page of such a table is asked for and taken. -/
theorem fetch_of_sorted (hsorted : load.server.tasks.Pairwise fun a b ↦ a.taskId ≤ b.taskId)
    {cursor : Option PageCursor} (hpending : load.sync.pending = some (.tasks, cursor))
    (limit : Option Nat) :
    let rest := load.server.tasks.filter fun task ↦
      (cursor.bind PageCursor.toTask).all fun cursor ↦ decide (cursor < task.taskId)
    let count := max (TablePageParams.rowLimit ⟨.tasks, cursor, limit⟩) 1
    load.fetch limit =
      ({ load.sync with requested := some (.tasks, cursor) }.accept
        ⟨load.sync.epoch, load.sequence, .tasks, load.server.tasks.length, rest.take count, [],
          (nextCursor TaskDto.taskId count rest).map .task⟩).toOption.map
        fun sync ↦ { load with sync := sync } := by
  have hnext : load.sync.nextRequest =
      ({ load.sync with requested := some (.tasks, cursor) }, some ⟨.tasks, cursor, none⟩) := by
    rw [TableSync.nextRequest, hpending]
    rfl
  rw [TableLoad.fetch, hnext]
  simp only [TablePage.build, DaemonSnapshot.taskPage_eq, tasksAfter_of_sorted hsorted]
  rfl

/-- The load with these tasks. -/
def TableLoad.withTasks (load : TableLoad P) (tasks : Section (TaskDto P)) : TableLoad P :=
  { load with sync := { load.sync with tasks := tasks } }

/-- A row of a task that transfers. -/
def transferring (id : String) : TaskDto noPayloads :=
  ⟨id, "https://host/" ++ id, id, "/save", 1, 0, 100, "", "", false, "", 0, 0, "", 0, ()⟩

/-- A server starts with two tasks. -/
def twoTasks : DaemonSnapshot noPayloads :=
  { DaemonSnapshot.initial with tasks := [transferring "a", transferring "b"] }

/-- The tasks are queued, and one of them is read. -/
def beforeLoad : List (DaemonEvent noPayloads) :=
  [.engine (.queuePositionsChanged [⟨"b", 1, 10⟩, ⟨"a", 2, 20⟩]),
    .taskRuntimeChanged
      ⟨"a", 900, 1, some 4, some 7, none, 100, [⟨0, 0, 99, 60, some true⟩], some ()⟩]

/-- The projection a load starts from. -/
def servedTasks : DaemonSnapshot noPayloads := run applyDaemonEvent twoTasks beforeLoad

/-- The load at its start. -/
def servedLoad : TableLoad noPayloads :=
  ⟨servedTasks, 2, [], ⟨"epoch", 2, .new (some 2), .new (some 2), none, []⟩⟩

/-- The tables and readings that a load of the two tasks starts from. -/
theorem served_twoTasks :
    Complete servedTasks ∧ ∀ id, (servedTasks.view id).Settled := by
  have hnone : ∀ ids ∈ (none : Option (List String)), ids.Nodup := fun _ h ↦ by cases h
  have hfresh : Fresh twoTasks := ⟨by decide, rfl, rfl, rfl, rfl⟩
  apply hfresh.run
  · refine ⟨⟨⟨rfl, hnone, by decide⟩, ?_⟩, ⟨⟨rfl, hnone, by decide⟩, ?_⟩, trivial⟩
    · rintro rows ⟨⟩
      rfl
    · rintro rows ⟨⟩
  · exact ⟨trivial, rfl, trivial⟩

/-- The first page is read, its task deleted, and the other pages follow. -/
def deletedBetweenPages : List (LoadAction noPayloads) :=
  [.page (some 1), .publish (.taskDeleted "a"),
    .publish (.engine (.queuePositionsChanged [⟨"b", 1, 10⟩])), .page (some 1), .deliver, .page (some 1),
    .deliver]

/-- The load when the second page is asked for. -/
def afterDeletion : TableLoad noPayloads :=
  { servedLoad with
    server := run applyDaemonEvent servedTasks (TableLoad.published deletedBetweenPages)
    sequence := 4
    inFlight := framesAfter "epoch" 2 (TableLoad.published deletedBetweenPages) }

/-- The client ends with the other task and its place in the queue. -/
theorem table_sync_converges_deleted :
    ∃ load' client, servedLoad.run deletedBetweenPages = some load' ∧
      load'.client servedTasks.pagedHeader = some client ∧ client.Loaded ∧
      (client.tasks.map TaskDto.taskId).Nodup ∧
      (∀ id, client.task id = load'.server.task id) ∧
      client.queuePositions = load'.server.queuePositions ∧
      client.besideTables = load'.server.besideTables := by
  have hfirst : servedLoad.fetch (some 1) =
      some (servedLoad.withTasks ⟨true, false, some (.task "a"), [transferring "a"]⟩) :=
    (fetch_of_sorted (by decide) rfl _).trans rfl
  have hsecond : (afterDeletion.withTasks
        ⟨true, false, some (.task "a"), [transferring "a"]⟩).fetch (some 1) =
      some (afterDeletion.withTasks ⟨true, true, none, [transferring "a", transferring "b"]⟩) :=
    (fetch_of_sorted (by decide) rfl _).trans rfl
  obtain ⟨load', hrest, hdone⟩ : ∃ load', (afterDeletion.withTasks
        ⟨true, true, none, [transferring "a", transferring "b"]⟩).run
      [.deliver, .page (some 1), .deliver] = some load' ∧ load'.sync.Finished := ⟨_, rfl, rfl⟩
  have hrun : servedLoad.run deletedBetweenPages = some load' := by
    show (servedLoad.fetch (some 1)).bind _ = _
    rw [hfirst]
    show ((afterDeletion.withTasks
      ⟨true, false, some (.task "a"), [transferring "a"]⟩).fetch (some 1)).bind _ = _
    rw [hsecond]
    exact hrest
  have hnone : ∀ ids ∈ (none : Option (List String)), ids.Nodup := fun _ h ↦ by cases h
  have hevents : EveryStep applyDaemonEvent Publishable servedTasks
      (TableLoad.published deletedBetweenPages) :=
    ⟨⟨rfl, hnone, by decide⟩, ⟨rfl, hnone, by decide⟩, trivial⟩
  obtain ⟨client, hclient⟩ := table_sync_converges served_twoTasks.1
    (show TableLoad.start servedTasks "epoch" 2 = some servedLoad from rfl) hrun hevents hdone
  exact ⟨load', client, hrun, hclient⟩

end Converges

end Protocol
