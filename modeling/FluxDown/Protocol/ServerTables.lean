import FluxDown.Protocol.RuntimeReplay
import FluxDown.Protocol.TableSyncSafety

/-!
# The projection a server keeps

Library `Protocol`. A server starts from the tasks of its database, without a queue and without
readings, and takes events one after the other. At every moment its tables are complete, so that a
load can start from them; and while it takes readings only of tasks that transfer, the readings of
each task are those that stay under the status of its row.
-/

namespace Protocol

open Base Engine.QueueOrder

variable {P : Payloads} {snapshot : DaemonSnapshot P} {event : DaemonEvent P}
  {events : List (DaemonEvent P)}

/-- The projection a server starts with: the tasks of the database, each once
(`src/native/daemon/src/runtime.rs:659–698`). -/
structure Fresh (snapshot : DaemonSnapshot P) : Prop where
  distinct : (snapshot.tasks.map TaskDto.taskId).Nodup
  noQueue : snapshot.queuePositions = []
  noReadings : snapshot.taskRuntime = SortedMap.empty
  taskTotal : snapshot.taskTotal = none
  queueTotal : snapshot.queueTotal = none

/-- The server may take the event: also the ranks of a queue table that is put in place of the old
one are the places. -/
structure Takes (snapshot : DaemonSnapshot P) (event : DaemonEvent P) : Prop
    extends Publishable snapshot event where
  ranked : ∀ rows, event = .engine (.queuePositionsChanged rows) → Ranked rows

/-- The tables of the projection are there. -/
def DaemonSnapshot.Loaded (snapshot : DaemonSnapshot P) : Prop :=
  (snapshot.taskTotal, snapshot.queueTotal) = (none, none)

/-- No event reloads, and tables of tasks have each task once. -/
theorem publishable_forall (h : EveryStep applyDaemonEvent Publishable snapshot events) :
    ∀ event ∈ events, event.reloads = false ∧ ∀ ids ∈ event.newTable, ids.Nodup := by
  induction events generalizing snapshot with
  | nil => exact fun event hevent ↦ absurd hevent List.not_mem_nil
  | cons event events ih =>
    rw [List.forall_mem_cons]
    exact ⟨⟨h.1.noReload, h.1.newTable⟩, ih h.2⟩

/-! ## Complete tables -/

/-- Loaded tables stay loaded. -/
theorem DaemonSnapshot.Loaded.apply (h : snapshot.Loaded) (hreload : event.reloads = false) :
    (applyDaemonEvent snapshot event).Loaded := by
  have htotals := Prod.mk.inj h
  cases event with
  | taskRuntimeChanged runtime =>
    simp only [applyDaemonEvent]
    split <;> exact h
  | snapshotReplaced replacement => cases hreload
  | tablesReloading tasks queue => cases hreload
  | tasksChanged tasks =>
    exact (foldl_keeps (g := fun snapshot : DaemonSnapshot P ↦
      (snapshot.taskTotal, snapshot.queueTotal)) (f := applyTaskChanged) (fun _ _ ↦ rfl) tasks
      snapshot).trans h
  | engine message =>
    cases message with
    | tasksSnapshot tasks => exact congrArg (Prod.mk none) htotals.2
    | queuePositionsChanged rows => exact congrArg (fun total ↦ (total, none)) htotals.1
    | taskProgress progress =>
      simp only [applyDaemonEvent, applyEngineMessage]
      split <;> exact h
    | segmentProgress taskId totalBytes segments =>
      simp only [applyDaemonEvent, applyEngineMessage]
      split <;> exact h
    | fileMissingChanged updates =>
      exact (foldl_keeps (g := fun snapshot : DaemonSnapshot P ↦
        (snapshot.taskTotal, snapshot.queueTotal))
        (f := fun snapshot update ↦ snapshot.updateTask update.taskId update.markTask)
        (fun _ _ ↦ rfl) updates snapshot).trans h
    | _ => exact h
  | _ => exact h

/-- Ranks that are places stay places. -/
theorem ranked_queueAfter {positions : List QueuePositionDto} (h : Ranked positions)
    (hreload : event.reloads = false)
    (hrows : ∀ rows, event = .engine (.queuePositionsChanged rows) → Ranked rows) :
    Ranked (queueAfter positions event) := by
  cases event with
  | snapshotReplaced replacement => cases hreload
  | tablesReloading tasks queue => cases hreload
  | engine message =>
    cases message with
    | queuePositionsChanged rows => exact hrows rows rfl
    | queueOrderChanged removed added => exact ranked_applyQueueOrder positions removed added
    | _ => exact h
  | _ => exact h

/-- An event keeps the tables complete. -/
theorem Complete.apply (h : Complete snapshot) (hevent : Takes snapshot event) :
    Complete (applyDaemonEvent snapshot event) := by
  have hloaded : snapshot.Loaded := by rw [DaemonSnapshot.Loaded, h.taskTotal, h.queueTotal]
  have htotals := Prod.mk.inj (hloaded.apply hevent.noReload)
  refine ⟨h.toWellKept.apply hevent.toPublishable, htotals.1, htotals.2, ?_⟩
  rw [queue_apply]
  exact ranked_queueAfter h.ranked hevent.noReload hevent.ranked

/-- The tables of a server are complete at every moment. -/
theorem Complete.run (h : Complete snapshot)
    (hevents : EveryStep applyDaemonEvent Takes snapshot events) :
    Complete (run applyDaemonEvent snapshot events) :=
  run_invariant (fun _ _ hcomplete hevent ↦ hcomplete.apply hevent) h hevents

/-- A server that starts has complete tables. -/
theorem Fresh.complete (h : Fresh snapshot) : Complete snapshot where
  distinct := h.distinct
  inOrder := by
    rw [h.noQueue]
    exact List.Pairwise.nil
  taskTotal := h.taskTotal
  queueTotal := h.queueTotal
  ranked := by
    rw [h.noQueue]
    rfl

/-! ## Settled readings -/

/-- A task is behind itself. -/
theorem behind_self {view : TaskView P} (h : view.Settled) :
    Behind (view.row.map TaskDto.status) view view where
  readings _ _ := rfl
  row := .inr (.inl rfl)
  absent hrow := h.of_row hrow
  client := .inr h
  server := h

/-- A server that starts has no readings to settle. -/
theorem Fresh.settled (h : Fresh snapshot) (id : String) : (snapshot.view id).Settled := by
  have hnone : (snapshot.view id).runtime = none := by
    rw [DaemonSnapshot.view, h.noReadings]
    rfl
  rw [TaskView.Settled, hnone]
  cases (snapshot.view id).row <;> simp [Protocol.settled]

/-- The readings of a server are settled at every moment. -/
theorem settled_run (hreload : ∀ event ∈ events, event.reloads = false)
    (hreads : EveryStep applyDaemonEvent ReadsActive snapshot events)
    {id : String} (h : (snapshot.view id).Settled) :
    ((run applyDaemonEvent snapshot events).view id).Settled := by
  have hbehind := (behind_self h).acts (reads_acts hreload hreads id)
  rw [← view_run hreload] at hbehind
  exact hbehind.server

/-- Where a load starts at a server that has taken events since its start: the tables are complete,
and the readings of every task are settled. -/
theorem Fresh.run (h : Fresh snapshot) (hevents : EveryStep applyDaemonEvent Takes snapshot events)
    (hreads : EveryStep applyDaemonEvent ReadsActive snapshot events) :
    Complete (run applyDaemonEvent snapshot events) ∧
      ∀ id, ((run applyDaemonEvent snapshot events).view id).Settled := by
  have hpublishable := hevents.mono fun _ _ h ↦ h.toPublishable
  have hreload : ∀ event ∈ events, event.reloads = false :=
    fun event hevent ↦ (publishable_forall hpublishable event hevent).1
  exact ⟨h.complete.run hevents, fun id ↦ settled_run hreload hreads (h.settled id)⟩

end Protocol
