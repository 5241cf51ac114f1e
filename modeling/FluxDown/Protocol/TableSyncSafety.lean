import FluxDown.Base.Paging
import FluxDown.Protocol.QueueReplay
import FluxDown.Protocol.RowWrites
import FluxDown.Protocol.TableSync

/-!
# A paged load reaches the server's projection

Library `Protocol`. The pages of a load are read at different times between which the server takes
events. Each row that is loaded is the row the server had at some of these times, and each queue
entry of a task that no event places is the one of the snapshot. The replay of all events from the
snapshot on overwrites whatever the pages had of them before, so the client ends where the server
is.
-/

namespace Protocol

open Base Engine.QueueOrder

variable {P : Payloads}

/-! ## What the server goes through -/

/-- Ids are distinct and the queue is in order. -/
structure WellKept (snapshot : DaemonSnapshot P) : Prop where
  distinct : (snapshot.tasks.map TaskDto.taskId).Nodup
  inOrder : InOrder snapshot.queuePositions

/-- A projection that a load starts from: its tables are complete, and ranks are places. -/
structure Complete (snapshot : DaemonSnapshot P) : Prop extends WellKept snapshot where
  taskTotal : snapshot.taskTotal = none
  queueTotal : snapshot.queueTotal = none
  ranked : Ranked snapshot.queuePositions

/-- The ids of the rows a message puts in place of all others. -/
def DaemonEvent.newTable : DaemonEvent P → Option (List String)
  | .engine (.tasksSnapshot tasks) => some (tasks.map TaskDto.taskId)
  | _ => none

/-- The server may take the event during a load: it reloads nothing, a table of tasks has each task
once, and the queue stays in order. -/
structure Publishable (snapshot : DaemonSnapshot P) (event : DaemonEvent P) : Prop where
  noReload : event.reloads = false
  newTable : ∀ ids ∈ event.newTable, ids.Nodup
  inOrder : InOrder (applyDaemonEvent snapshot event).queuePositions

private theorem nodup_foldl {α : Type} {f : DaemonSnapshot P → α → DaemonSnapshot P}
    (h : ∀ snapshot item, (snapshot.tasks.map TaskDto.taskId).Nodup →
      ((f snapshot item).tasks.map TaskDto.taskId).Nodup) (items : List α)
    {snapshot : DaemonSnapshot P} (hnodup : (snapshot.tasks.map TaskDto.taskId).Nodup) :
    ((items.foldl f snapshot).tasks.map TaskDto.taskId).Nodup := by
  induction items generalizing snapshot with
  | nil => exact hnodup
  | cons item items ih => exact ih (h snapshot item hnodup)

private theorem nodup_updateTask {snapshot : DaemonSnapshot P} {taskId : String}
    {f : TaskDto P → TaskDto P} (hf : KeepsKey TaskDto.taskId taskId f)
    (hnodup : (snapshot.tasks.map TaskDto.taskId).Nodup) :
    ((snapshot.updateTask taskId f).tasks.map TaskDto.taskId).Nodup := by
  rw [DaemonSnapshot.updateTask, map_key_modifyRow hf]
  exact hnodup

private theorem nodup_filter {rows : List (TaskDto P)} (p : TaskDto P → Bool)
    (hnodup : (rows.map TaskDto.taskId).Nodup) : ((rows.filter p).map TaskDto.taskId).Nodup :=
  hnodup.sublist (List.filter_sublist.map _)

/-- An event keeps the ids distinct. -/
theorem nodup_applyDaemonEvent {snapshot : DaemonSnapshot P} {event : DaemonEvent P}
    (hreload : event.reloads = false) (hnew : ∀ ids ∈ event.newTable, ids.Nodup)
    (hnodup : (snapshot.tasks.map TaskDto.taskId).Nodup) :
    ((applyDaemonEvent snapshot event).tasks.map TaskDto.taskId).Nodup := by
  cases event with
  | taskRuntimeChanged runtime =>
    simp only [applyDaemonEvent]
    split <;> exact hnodup
  | snapshotReplaced replacement => cases hreload
  | tablesReloading tasks queue => cases hreload
  | engine message =>
    cases message with
    | tasksSnapshot tasks => exact hnew _ rfl
    | taskProgress progress =>
      simp only [applyDaemonEvent, applyEngineMessage]
      split
      · exact nodup_filter _ hnodup
      · apply nodup_updateTask (f := progress.update)
        · exact fun _ h ↦ h
        · exact hnodup
    | segmentProgress taskId totalBytes segments =>
      simp only [applyDaemonEvent, applyEngineMessage]
      split <;> exact hnodup
    | taskMetaProbed taskId fileName totalBytes =>
      apply nodup_updateTask (f := probedTask fileName totalBytes)
      · exact fun _ h ↦ h
      · exact hnodup
    | taskQueueChanged taskId queueId =>
      apply nodup_updateTask (f := fun task ↦ { task with queueId := queueId })
      · exact fun _ h ↦ h
      · exact hnodup
    | taskRouteChanged taskId route =>
      apply nodup_updateTask (f := fun task ↦ { task with autoRoute := route })
      · exact fun _ h ↦ h
      · exact hnodup
    | fileMissingChanged updates =>
      apply nodup_foldl _ updates hnodup
      intro snapshot update hnodup
      apply nodup_updateTask (f := update.markTask)
      · exact fun _ h ↦ h
      · exact hnodup
    | _ => exact hnodup
  | taskChanged task => exact nodup_upsertRow hnodup task
  | tasksChanged tasks =>
    exact nodup_foldl (fun _ task hnodup ↦ nodup_upsertRow hnodup task) tasks hnodup
  | taskDeleted taskId => exact nodup_filter _ hnodup
  | tasksDeleted taskIds => exact nodup_filter _ hnodup
  | _ => exact hnodup

/-- An event keeps the tables well kept. -/
theorem WellKept.apply {snapshot : DaemonSnapshot P} {event : DaemonEvent P} (h : WellKept snapshot)
    (hevent : Publishable snapshot event) : WellKept (applyDaemonEvent snapshot event) where
  distinct := nodup_applyDaemonEvent hevent.noReload hevent.newTable h.distinct
  inOrder := hevent.inOrder

/-- Events keep the tables well kept. -/
theorem WellKept.run {snapshot : DaemonSnapshot P} {events : List (DaemonEvent P)}
    (h : WellKept snapshot) (hevents : EveryStep applyDaemonEvent Publishable snapshot events) :
    WellKept (run applyDaemonEvent snapshot events) :=
  run_invariant (fun _ _ hkept hevent ↦ hkept.apply hevent) h hevents

/-! ## Pages -/

namespace DaemonSnapshot

/-- The tasks after a cursor. -/
def tasksAfter (snapshot : DaemonSnapshot P) (cursor : Option String) : List (TaskDto P) :=
  sortByRank TaskDto.taskId
    (snapshot.tasks.filter fun task ↦ cursor.all fun cursor ↦ decide (cursor < task.taskId))

/-- The queue entries after a cursor. -/
def entriesAfter (snapshot : DaemonSnapshot P) (cursor : Option Int) : List QueueOrderEntryDto :=
  (cursor.elim snapshot.queuePositions fun cursor ↦
    snapshot.queuePositions.dropWhile fun entry ↦ entry.order ≤ cursor).map entryOf

/-- The page of tasks after a cursor. -/
theorem taskPage_eq (snapshot : DaemonSnapshot P) (cursor : Option String) (limit : Nat) :
    snapshot.taskPage cursor limit =
      ((snapshot.tasksAfter cursor).take (max limit 1),
        nextCursor TaskDto.taskId (max limit 1) (snapshot.tasksAfter cursor)) := rfl

private theorem increasing_tasksAfter {snapshot : DaemonSnapshot P} (h : WellKept snapshot)
    (cursor : Option String) : Increasing TaskDto.taskId (snapshot.tasksAfter cursor) :=
  increasing_sortByRank (nodup_filter _ h.distinct)

private theorem mem_tasksAfter {snapshot : DaemonSnapshot P} {cursor : Option String}
    {task : TaskDto P} :
    task ∈ snapshot.tasksAfter cursor ↔
      task ∈ snapshot.tasks ∧ ∀ last ∈ cursor, last < task.taskId := by
  rw [tasksAfter, (perm_sortByRank _).mem_iff, List.mem_filter]
  cases cursor <;> simp

private theorem increasing_entriesAfter {snapshot : DaemonSnapshot P} (h : WellKept snapshot)
    (cursor : Option Int) : Increasing QueueOrderEntry.order (snapshot.entriesAfter cursor) := by
  rw [entriesAfter, increasing_entries]
  cases cursor with
  | none => exact h.inOrder
  | some cursor => exact h.inOrder.sublist (List.dropWhile_sublist _)

private theorem mem_entriesAfter {snapshot : DaemonSnapshot P} (h : WellKept snapshot)
    {cursor : Option Int} {entry : QueueOrderEntryDto} :
    entry ∈ snapshot.entriesAfter cursor ↔
      entry ∈ snapshot.queuePositions.map entryOf ∧ ∀ last ∈ cursor, last < entry.order := by
  cases cursor with
  | none => simp [entriesAfter]
  | some cursor =>
    simp only [entriesAfter, Option.elim_some, List.mem_map, h.inOrder.mem_dropWhile_iff,
      Option.mem_def, Option.some.injEq, forall_eq']
    constructor
    · rintro ⟨row, ⟨hrow, hlt⟩, rfl⟩
      exact ⟨⟨row, hrow, rfl⟩, hlt⟩
    · rintro ⟨⟨row, hrow, rfl⟩, hlt⟩
      exact ⟨row, ⟨hrow, hlt⟩, rfl⟩

/-- A queue in order has no rows of one sort key to keep together. -/
theorem queuePage_eq {snapshot : DaemonSnapshot P} (h : WellKept snapshot) (cursor : Option Int)
    (limit : Nat) :
    snapshot.queuePage cursor limit =
      ((snapshot.entriesAfter cursor).take (max limit 1),
        nextCursor QueueOrderEntry.order (max limit 1) (snapshot.entriesAfter cursor)) := by
  unfold queuePage entriesAfter
  have hincreasing := increasing_entries.mp (increasing_entriesAfter h cursor)
  generalize (cursor.elim snapshot.queuePositions fun cursor ↦
    snapshot.queuePositions.dropWhile fun entry ↦ entry.order ≤ cursor) = rest at hincreasing ⊢
  have hties : (rest.take (max limit 1)).getLast?.elim [] (fun last ↦
      (rest.drop (max limit 1)).takeWhile fun entry ↦ entry.order == last.order) = [] := by
    cases hlast : (rest.take (max limit 1)).getLast? with
    | none => rfl
    | some last =>
      rw [Option.elim_some]
      cases hdrop : rest.drop (max limit 1) with
      | nil => rfl
      | cons next more =>
        have hsplit : rest.take (max limit 1) ++ next :: more = rest := by
          rw [← hdrop, List.take_append_drop]
        rw [InOrder, Increasing, ← hsplit, List.pairwise_append] at hincreasing
        have hlt := hincreasing.2.2 last (List.mem_of_getLast? hlast) next List.mem_cons_self
        rw [List.takeWhile_cons_of_neg]
        simpa using hlt.ne'
  dsimp only
  rw [hties, List.append_nil]
  have hlength : (rest.take (max limit 1)).length < rest.length ↔ max limit 1 < rest.length := by
    rw [List.length_take]
    omega
  simp only [hlength, nextCursor, List.length_map, ← List.map_take, List.getLast?_map,
    Option.map_map]
  rfl

end DaemonSnapshot

/-! ## Frames -/

/-- The frames of the events after a number. -/
def framesAfter (epoch : String) : Nat → List (DaemonEvent P) → List (EventFrame P)
  | _, [] => []
  | sequence, event :: events =>
    ⟨epoch, sequence + 1, none, .daemon event⟩ :: framesAfter epoch (sequence + 1) events

private theorem framesAfter_concat (epoch : String) (sequence : Nat) (events : List (DaemonEvent P))
    (event : DaemonEvent P) :
    framesAfter epoch sequence (events ++ [event]) =
      framesAfter epoch sequence events ++
        [⟨epoch, sequence + events.length + 1, none, .daemon event⟩] := by
  induction events generalizing sequence with
  | nil => rfl
  | cons first events ih =>
    rw [List.cons_append, framesAfter, framesAfter, ih, List.cons_append, List.length_cons]
    congr 4
    omega

/-- The frames after the cursor are all taken. -/
theorem replayDaemon_framesAfter (epoch : String) (sequence : Nat) (events : List (DaemonEvent P))
    (snapshot : DaemonSnapshot P) :
    replayDaemon epoch snapshot sequence (framesAfter epoch sequence events) =
      some (run applyDaemonEvent snapshot events) := by
  induction events generalizing sequence snapshot with
  | nil => rfl
  | cons event events ih =>
    have hjudge : judgeFrame epoch sequence
        (⟨epoch, sequence + 1, none, .daemon event⟩ : EventFrame P) = .accept := by
      simp [judgeFrame, EventFrame.coversFrom]
    rw [framesAfter, replayDaemon, hjudge]
    exact ih (sequence + 1) (applyDaemonEvent snapshot event)

/-! ## The load while the server goes on -/

section Load

variable (base : DaemonSnapshot P) (events : List (DaemonEvent P))

/-- The task table at some time since the snapshot. -/
def SeenTasks (table : List (TaskDto P)) : Prop :=
  ∃ before after, events = before ++ after ∧ (run applyDaemonEvent base before).tasks = table

/-- The queue entries at some time since the snapshot. -/
def SeenQueue (table : List QueueOrderEntryDto) : Prop :=
  ∃ before after, events = before ++ after ∧
    (run applyDaemonEvent base before).queuePositions.map entryOf = table

/-- One table of a load: unwanted and empty, or read up to its cursor. -/
structure SectionRead {α κ : Type} [LinearOrder κ] (rank : α → κ) (toCursor : κ → PageCursor)
    (Seen : List α → Prop) (total : Option Nat) (sect : Section α) : Prop where
  wanted : sect.wanted = total.isSome
  unwanted : sect.wanted = false → sect.done = true ∧ sect.rows = []
  read : ∃ cursor : Option κ, sect.cursor = cursor.map toCursor ∧
    Read rank Seen sect.rows cursor sect.done

/-- A load after the events. -/
structure Loading (epoch : String) (sequence : Nat) (load : TableLoad P) : Prop where
  server : load.server = run applyDaemonEvent base events
  inEpoch : load.sync.epoch = epoch
  startsAt : load.sync.baseSequence = sequence
  reached : load.sequence = sequence + events.length
  frames : load.sync.backlog ++ load.inFlight = framesAfter epoch sequence events
  tasks : SectionRead TaskDto.taskId .task (SeenTasks base events) base.pagedHeader.taskTotal
    load.sync.tasks
  queue : SectionRead QueueOrderEntry.order .order (SeenQueue base events)
    base.pagedHeader.queueTotal load.sync.queue

end Load

section Steps

variable {base : DaemonSnapshot P} {events : List (DaemonEvent P)} {epoch : String} {sequence : Nat}
  {load load' : TableLoad P}

private theorem SectionRead.mono {α κ : Type} [LinearOrder κ] {rank : α → κ}
    {toCursor : κ → PageCursor}
    {Seen Seen' : List α → Prop} {total : Option Nat} {sect : Section α}
    (h : SectionRead rank toCursor Seen total sect)
    (himp : ∀ table, Seen table → Seen' table) :
    SectionRead rank toCursor Seen' total sect where
  wanted := h.wanted
  unwanted := h.unwanted
  read := by
    obtain ⟨cursor, hcursor, hread⟩ := h.read
    exact ⟨cursor, hcursor, hread.mono himp⟩

/-- A page that was read after the cursor of a section is taken. -/
theorem SectionRead.accept {α κ : Type} [LinearOrder κ] {rank : α → κ} {toCursor : κ → PageCursor}
    (hinjective : Function.Injective toCursor) {Seen : List α → Prop} {total : Option Nat}
    {sect : Section α} (h : SectionRead rank toCursor Seen total sect)
    (hwanted : sect.wanted = true) (hdone : sect.done = false) {cursor : Option κ}
    (hcursor : sect.cursor = cursor.map toCursor) {table rest : List α} (htable : Seen table)
    (hrest : Increasing rank rest)
    (hmem : ∀ a, a ∈ rest ↔ a ∈ table ∧ ∀ last ∈ cursor, last < rank a) {n : Nat} (hpos : 0 < n) :
    ∃ next, sect.accept (rest.take n) sect.cursor
        ((nextCursor rank n rest).map toCursor) = .ok next ∧
      SectionRead rank toCursor Seen total next := by
  obtain ⟨cursor', hcursor', hread⟩ := h.read
  obtain rfl : cursor = cursor' :=
    Option.map_injective hinjective (hcursor.symm.trans hcursor')
  rw [hdone] at hread
  have hmove : ¬(((nextCursor rank n rest).map toCursor).isSome &&
      (nextCursor rank n rest).map toCursor = sect.cursor) := by
    rw [Bool.and_eq_true, Option.isSome_map, decide_eq_true_iff, hcursor]
    rintro ⟨hsome, heq⟩
    have hlast : ∀ a ∈ rest, ∀ last ∈ cursor, last < rank a := fun a ha ↦ ((hmem a).mp ha).2
    exact Read.nextCursor_ne hlast hpos hrest hsome (Option.map_injective hinjective heq)
  refine ⟨_, if_neg hmove, h.wanted, ?_, ?_⟩
  · intro hunwanted
    rw [hwanted] at hunwanted
    cases hunwanted
  · refine ⟨nextCursor rank n rest, rfl, ?_⟩
    rw [Option.isNone_map]
    exact hread.page htable hrest hmem hpos

/-- The server takes an event. -/
theorem Loading.publish (h : Loading base events epoch sequence load) (event : DaemonEvent P) :
    Loading base (events ++ [event]) epoch sequence
      { load with
        server := applyDaemonEvent load.server event
        sequence := load.sequence + 1
        inFlight := load.inFlight ++ [load.frame event] } where
  server := by rw [run_concat, h.server]
  inEpoch := h.inEpoch
  startsAt := h.startsAt
  reached := by rw [h.reached, List.length_append, List.length_singleton, Nat.add_assoc]
  frames := by
    rw [framesAfter_concat, ← h.frames, TableLoad.frame, h.inEpoch, h.reached, List.append_assoc]
  tasks := by
    apply h.tasks.mono
    rintro table ⟨before, after, rfl, htable⟩
    exact ⟨before, after ++ [event], List.append_assoc _ _ _, htable⟩
  queue := by
    apply h.queue.mono
    rintro table ⟨before, after, rfl, htable⟩
    exact ⟨before, after ++ [event], List.append_assoc _ _ _, htable⟩

/-- A frame arrives. -/
theorem Loading.deliver (h : Loading base events epoch sequence load)
    (hstep : load.step .deliver = some load') : Loading base events epoch sequence load' := by
  simp only [TableLoad.step] at hstep
  cases hflight : load.inFlight with
  | nil =>
    rw [hflight] at hstep
    rwa [← Option.some.inj hstep]
  | cons frame frames =>
    rw [hflight] at hstep
    simp only [TableSync.pushFrame] at hstep
    split at hstep
    · cases hstep
    · rw [← Option.some.inj hstep]
      refine ⟨h.server, h.inEpoch, h.startsAt, h.reached, ?_, h.tasks, h.queue⟩
      rw [← h.frames, hflight]
      exact List.append_cons _ _ _ |>.symm

private theorem bind_toTask (cursor : Option String) :
    (cursor.map PageCursor.task).bind PageCursor.toTask = cursor := by cases cursor <;> rfl

private theorem bind_toOrder (cursor : Option Int) :
    (cursor.map PageCursor.order).bind PageCursor.toOrder = cursor := by cases cursor <;> rfl

private theorem all_toOrder (cursor : Option Int) :
    ((cursor.map PageCursor.order).all fun cursor ↦ cursor.toOrder.isSome) = true := by
  cases cursor <;> rfl

/-- A page of the task table is taken. -/
theorem Loading.fetch_tasks (h : Loading base events epoch sequence load)
    (hkept : WellKept load.server) (hwanted : load.sync.tasks.wanted = true)
    (hdone : load.sync.tasks.done = false) {limit : Option Nat}
    (hstep : load.fetch limit = some load') : Loading base events epoch sequence load' := by
  obtain ⟨cursor, hcursor, -⟩ := h.tasks.read
  have hseen : SeenTasks base events load.server.tasks :=
    ⟨events, [], (List.append_nil events).symm, by rw [h.server]⟩
  have hpos : 0 < max (TablePageParams.rowLimit ⟨.tasks, load.sync.tasks.cursor, limit⟩) 1 := by
    omega
  obtain ⟨next, hnext, hread⟩ := h.tasks.accept (fun _ _ heq ↦ PageCursor.task.inj heq) hwanted
    hdone    hcursor hseen (DaemonSnapshot.increasing_tasksAfter hkept cursor)
    (fun _ ↦ DaemonSnapshot.mem_tasksAfter) hpos
  have hload : load' = { load with sync :=
      { load.sync with requested := none, tasks := next } } := by
    simp only [TableLoad.fetch, TableSync.nextRequest, TableSync.pending, hwanted, hdone,
      Bool.not_false, Bool.and_self, if_true, Option.map_some, TablePage.build, Option.bind_some,
      TableSync.accept, ne_eq, not_true, if_false, DaemonSnapshot.taskPage_eq] at hstep
    rw [hcursor, bind_toTask, ← hcursor, hnext] at hstep
    exact (Option.some.inj hstep).symm
  rw [hload]
  exact ⟨h.server, h.inEpoch, h.startsAt, h.reached, h.frames, hread, h.queue⟩

/-- A page of the queue table is taken. -/
theorem Loading.fetch_queue (h : Loading base events epoch sequence load)
    (hkept : WellKept load.server)
    (htasks : (load.sync.tasks.wanted && !load.sync.tasks.done) = false)
    (hwanted : load.sync.queue.wanted = true) (hdone : load.sync.queue.done = false)
    {limit : Option Nat} (hstep : load.fetch limit = some load') :
    Loading base events epoch sequence load' := by
  obtain ⟨cursor, hcursor, -⟩ := h.queue.read
  have hseen : SeenQueue base events (load.server.queuePositions.map entryOf) :=
    ⟨events, [], (List.append_nil events).symm, by rw [h.server]⟩
  have hpos : 0 < max (TablePageParams.rowLimit ⟨.queue, load.sync.queue.cursor, limit⟩) 1 := by
    omega
  obtain ⟨next, hnext, hread⟩ := h.queue.accept (fun _ _ heq ↦ PageCursor.order.inj heq) hwanted
    hdone    hcursor hseen (DaemonSnapshot.increasing_entriesAfter hkept cursor)
    (fun _ ↦ DaemonSnapshot.mem_entriesAfter hkept) hpos
  have hload : load' = { load with sync :=
      { load.sync with requested := none, queue := next } } := by
    have hall := all_toOrder cursor
    rw [← hcursor] at hall
    simp only [TableLoad.fetch, TableSync.nextRequest, TableSync.pending, htasks, hwanted, hdone,
      Bool.not_false, Bool.and_self, if_true, Bool.false_eq_true, if_false, Option.map_some,
      TablePage.build, hall, Option.bind_some, TableSync.accept, ne_eq, not_true,
      DaemonSnapshot.queuePage_eq hkept] at hstep
    rw [hcursor, bind_toOrder, ← hcursor, hnext] at hstep
    exact (Option.some.inj hstep).symm
  rw [hload]
  exact ⟨h.server, h.inEpoch, h.startsAt, h.reached, h.frames, h.tasks, hread⟩

/-- A page is read of the server as it stands. -/
theorem Loading.fetch (h : Loading base events epoch sequence load) (hkept : WellKept load.server)
    {limit : Option Nat} (hstep : load.fetch limit = some load') :
    Loading base events epoch sequence load' := by
  by_cases htasks : (load.sync.tasks.wanted && !load.sync.tasks.done) = true
  · rw [Bool.and_eq_true, Bool.not_eq_true'] at htasks
    exact h.fetch_tasks hkept htasks.1 htasks.2 hstep
  · rw [Bool.not_eq_true] at htasks
    by_cases hqueue : (load.sync.queue.wanted && !load.sync.queue.done) = true
    · rw [Bool.and_eq_true, Bool.not_eq_true'] at hqueue
      exact h.fetch_queue hkept htasks hqueue.1 hqueue.2 hstep
    · rw [Bool.not_eq_true] at hqueue
      have hload : load' = { load with sync := { load.sync with requested := none } } := by
        simp only [TableLoad.fetch, TableSync.nextRequest, TableSync.pending, htasks, hqueue,
          Bool.false_eq_true, if_false, Option.map_none] at hstep
        exact (Option.some.inj hstep).symm
      rw [hload]
      exact ⟨h.server, h.inEpoch, h.startsAt, h.reached, h.frames, h.tasks, h.queue⟩

/-- Whatever the steps are, the load stays one of the snapshot and of the events so far. -/
theorem Loading.run {actions : List (LoadAction P)} (h : Loading base events epoch sequence load)
    (hbase : WellKept base) (hrun : load.run actions = some load')
    (hevents : EveryStep applyDaemonEvent Publishable base
      (events ++ TableLoad.published actions)) :
    Loading base (events ++ TableLoad.published actions) epoch sequence load' := by
  induction actions generalizing load events with
  | nil =>
    obtain rfl : load = load' := Option.some.inj hrun
    rwa [TableLoad.published, List.filterMap_nil, List.append_nil]
  | cons action actions ih =>
    obtain ⟨next, hstep, hrest⟩ := Option.bind_eq_some_iff.mp hrun
    have hkept : WellKept load.server := by
      rw [h.server]
      exact hbase.run (everyStep_append.mp hevents).1
    cases action with
    | publish event =>
      have hsplit : events ++ TableLoad.published (.publish event :: actions) =
          (events ++ [event]) ++ TableLoad.published actions := by
        simp [TableLoad.published]
      rw [hsplit] at hevents ⊢
      have hnext := h.publish event
      rw [Option.some.inj hstep] at hnext
      exact ih hnext hrest hevents
    | deliver => exact ih (h.deliver hstep) hrest hevents
    | page limit => exact ih (h.fetch hkept hstep) hrest hevents

end Steps

section Start

variable {base : DaemonSnapshot P} {epoch : String} {sequence : Nat} {load : TableLoad P}

private theorem sectionRead_new {α κ : Type} [LinearOrder κ] {rank : α → κ}
    {toCursor : κ → PageCursor} {Seen : List α → Prop} {total : Option Nat}
    (h : total = none → Seen []) :
    SectionRead rank toCursor Seen total (Section.new total) where
  wanted := rfl
  unwanted hwanted := by
    cases total with
    | none => exact ⟨rfl, rfl⟩
    | some count => cases hwanted
  read := by
    refine ⟨none, rfl, ?_⟩
    cases total with
    | none => exact Read.empty (h rfl)
    | some count => exact Read.start

/-- A table without a number is empty. -/
theorem eq_nil_of_tableTotal {α : Type} {rows : List α} {total : Option Nat}
    (h : (DaemonSnapshot.tableTotal rows.length).or total = none) : rows = [] := by
  unfold DaemonSnapshot.tableTotal at h
  split at h
  · cases h
  · next hpos => exact List.length_eq_zero_iff.mp (by omega)

/-- A load starts without events. -/
theorem Loading.start (hstart : TableLoad.start base epoch sequence = some load) :
    Loading base [] epoch sequence load := by
  obtain ⟨sync, hsync, rfl⟩ := Option.map_eq_some_iff.mp hstart
  unfold TableSync.forSnapshot at hsync
  split at hsync
  · cases hsync
  · rw [← Option.some.inj hsync]
    refine ⟨rfl, rfl, rfl, rfl, rfl, sectionRead_new ?_, sectionRead_new ?_⟩
    · intro htotal
      exact ⟨[], [], rfl, eq_nil_of_tableTotal htotal⟩
    · intro htotal
      exact ⟨[], [], rfl, List.map_eq_nil_iff.mpr (eq_nil_of_tableTotal htotal)⟩

end Start

end Protocol
