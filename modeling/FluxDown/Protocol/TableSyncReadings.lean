import FluxDown.Protocol.RuntimeReplay
import FluxDown.Protocol.TableSyncConverges

/-!
# The readings after a paged load

Library `Protocol`. A snapshot carries the transfer readings of all tasks as they were when it was
taken. The rows that are loaded later decide which of them stay, and the replay takes later
readings under the status of these rows. Where the server takes readings only of tasks that
transfer, the client ends with its readings all the same.
-/

namespace Protocol

open Base

variable {P : Payloads} {base : DaemonSnapshot P} {epoch : String} {sequence : Nat}
  {load load' : TableLoad P}

/-- The readings of the snapshot that stay beside the loaded rows. -/
theorem view_finish {events : List (DaemonEvent P)}
    (hload : Loading base events epoch sequence load) (hsettled : ∀ id, (base.view id).Settled)
    (id : String) :
    (load.sync.finish base.pagedHeader).1.view id =
      (base.view id).reloaded (lastRow? TaskDto.taskId id load.sync.tasks.rows) := by
  have hqueue : ∀ (snapshot : DaemonSnapshot P) (wanted : Bool),
      (if wanted then snapshot.installQueue load.sync.queue.rows else snapshot).view id =
        snapshot.view id := by
    intro snapshot wanted
    split <;> rfl
  have hfinish : (load.sync.finish base.pagedHeader).1.view id =
      (if load.sync.tasks.wanted then base.pagedHeader.installTasks load.sync.tasks.rows
        else base.pagedHeader).view id := hqueue _ load.sync.queue.wanted
  rw [hfinish]
  cases hwanted : load.sync.tasks.wanted with
  | true =>
    exact view_applyEngineMessage base.pagedHeader (.tasksSnapshot load.sync.tasks.rows) id
  | false =>
    have htasks : base.tasks = [] :=
      eq_nil_of_tableTotal (hload.tasks.total_eq_none hwanted)
    rw [(hload.tasks.unwanted hwanted).2]
    have hrow : (base.view id).row = none := by
      show lastRow? TaskDto.taskId id base.tasks = none
      rw [htasks]
      rfl
    have hruntime := (hsettled id).of_row hrow
    show TaskView.mk none (base.taskRuntime.get? id) = ⟨none, none⟩
    exact congrArg (TaskView.mk none) hruntime

/-- A load that has every page ends with the readings of the server. -/
theorem table_sync_readings (hbase : Complete base)
    (hstart : TableLoad.start base epoch sequence = some load) {actions : List (LoadAction P)}
    (hrun : load.run actions = some load')
    (hevents : EveryStep applyDaemonEvent Publishable base (TableLoad.published actions))
    (hsettled : ∀ id, (base.view id).Settled)
    (hreads : EveryStep applyDaemonEvent ReadsActive base (TableLoad.published actions))
    (hdone : load'.sync.Finished) :
    ∃ client, load'.client base.pagedHeader = some client ∧
      client.taskRuntime = load'.server.taskRuntime := by
  have hload : Loading base (TableLoad.published actions) epoch sequence load' :=
    (Loading.start hstart).run hbase.toWellKept hrun hevents
  generalize TableLoad.published actions = events at hevents hload hreads
  refine ⟨_, hload.client_eq, ?_⟩
  apply SortedMap.ext_get?
  intro id
  obtain ⟨before, after, rfl, hrow⟩ := loaded_row hload hbase.toWellKept hevents hdone id
  have hview := view_finish hload hsettled id
  rw [hrow] at hview
  rw [hload.server]
  exact replay_readings (fun event hevent ↦ (publishable_forall hevents event hevent).1)
    (everyStep_append.mp hreads).1 (hsettled id) hview

/-! ### A task that is read and paused while its table is loaded -/

/-- The task is read once more and then paused before its page is read. -/
def pausedBeforePage : List (LoadAction noPayloads) :=
  [.publish (.taskRuntimeChanged
      ⟨"a", 950, 2, some 5, some 7, none, 100, [⟨0, 0, 99, 80, some true⟩], some ()⟩),
    .publish (.taskChanged { transferring "a" with status := 2 }), .page none, .deliver,
    .page none, .deliver]

/-- The load when the tasks are asked for. -/
def afterPause : TableLoad noPayloads :=
  { servedLoad with
    server := run applyDaemonEvent servedTasks (TableLoad.published pausedBeforePage)
    sequence := 4
    inFlight := framesAfter "epoch" 2 (TableLoad.published pausedBeforePage) }

/-- The client has the readings of the task, which shows no activity any more. -/
theorem table_sync_readings_paused :
    ∃ load' client, servedLoad.run pausedBeforePage = some load' ∧
      load'.client servedTasks.pagedHeader = some client ∧
      client.taskRuntime = load'.server.taskRuntime := by
  have hfetch : afterPause.fetch none = some (afterPause.withTasks
      ⟨true, true, none, [{ transferring "a" with status := 2 }, transferring "b"]⟩) :=
    (fetch_of_sorted (by decide) rfl _).trans rfl
  obtain ⟨load', hrest, hdone⟩ : ∃ load', (afterPause.withTasks
        ⟨true, true, none, [{ transferring "a" with status := 2 }, transferring "b"]⟩).run
      [.deliver, .page none, .deliver] = some load' ∧ load'.sync.Finished := ⟨_, rfl, rfl⟩
  have hrun : servedLoad.run pausedBeforePage = some load' := by
    show (afterPause.fetch none).bind _ = _
    rw [hfetch]
    exact hrest
  have hnone : ∀ ids ∈ (none : Option (List String)), ids.Nodup := fun _ h ↦ by cases h
  have hevents : EveryStep applyDaemonEvent Publishable servedTasks
      (TableLoad.published pausedBeforePage) :=
    ⟨⟨rfl, hnone, by decide⟩, ⟨rfl, hnone, by decide⟩, trivial⟩
  have hreads : EveryStep applyDaemonEvent ReadsActive servedTasks
      (TableLoad.published pausedBeforePage) := ⟨rfl, trivial, trivial⟩
  obtain ⟨client, hclient, hsame⟩ := table_sync_readings served_twoTasks.1
    (show TableLoad.start servedTasks "epoch" 2 = some servedLoad from rfl) hrun hevents
    served_twoTasks.2 hreads hdone
  exact ⟨load', client, hrun, hclient, hsame⟩

end Protocol
