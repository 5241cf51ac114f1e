import FluxDown.Protocol.CoalesceMerge
import FluxDown.Protocol.QueueReplay
import FluxDown.Protocol.RowWrites

/-!
# Readings that are replayed

Library `Protocol`. A client that starts from the readings of a snapshot and from a row that was
read later takes the events in between once more. Readings are taken under the status of the row,
so they may come out differently at first; the event that gave the row its status settles them.
When samples come only for tasks that are active at the server, the client ends with the readings
of the server.
-/

namespace Protocol

open Base

variable {P : Payloads}

/-! ## What events do to a view -/

/-- A change of a task's view. -/
inductive ViewAct (P : Payloads) where
  | sampled (runtime : TaskRuntimeDto P)
  | stored (taskId : String) (totalBytes : Int) (segments : List SegmentDetailDto)
  | put (task : TaskDto P)
  | advanced (progress : TaskProgress)
  | rewritten (f : TaskDto P → TaskDto P) (status : ∀ row, (f row).status = row.status)
  | removed
  | reloaded (row : Option (TaskDto P))

/-- The view after a change. -/
def ViewAct.act (view : TaskView P) : ViewAct P → TaskView P
  | .sampled runtime => view.sampled runtime
  | .stored taskId totalBytes segments => view.stored taskId totalBytes segments
  | .put task => view.changed task
  | .advanced progress =>
    ⟨view.row.map progress.update, settled progress.status view.runtime⟩
  | .rewritten f _ => view.rewritten f
  | .removed => ⟨none, none⟩
  | .reloaded row => view.reloaded row

/-- The changes a message of the engine makes to the view of a task. -/
def engineActs (id : String) : WsServerMsg P → List (ViewAct P)
  | .tasksSnapshot tasks => [.reloaded (lastRow? TaskDto.taskId id tasks)]
  | .taskProgress progress =>
    if id = progress.taskId then
      if progress.deleted then [.removed] else [.advanced progress]
    else []
  | .segmentProgress taskId totalBytes segments =>
    if id = taskId then [.stored taskId totalBytes segments] else []
  | .taskMetaProbed taskId fileName totalBytes =>
    if id = taskId then [.rewritten (probedTask fileName totalBytes) fun _ ↦ rfl] else []
  | .taskQueueChanged taskId queueId =>
    if id = taskId then [.rewritten (fun task ↦ { task with queueId := queueId }) fun _ ↦ rfl]
    else []
  | .taskRouteChanged taskId route =>
    if id = taskId then [.rewritten (fun task ↦ { task with autoRoute := route }) fun _ ↦ rfl]
    else []
  | .fileMissingChanged updates =>
    updates.flatMap fun update ↦
      if id = update.taskId then [.rewritten update.markTask fun _ ↦ rfl] else []
  | _ => []

/-- The changes an event makes to the view of a task. -/
def viewActs (id : String) : DaemonEvent P → List (ViewAct P)
  | .taskRuntimeChanged runtime => if id = runtime.taskId then [.sampled runtime] else []
  | .engine message => engineActs id message
  | .taskChanged task => if id = task.taskId then [.put task] else []
  | .tasksChanged tasks => tasks.flatMap fun task ↦ if id = task.taskId then [.put task] else []
  | .taskDeleted taskId => if id = taskId then [.removed] else []
  | .tasksDeleted taskIds => if id ∈ taskIds then [.removed] else []
  | _ => []

private theorem foldl_ite (c : Prop) [Decidable c] (act : ViewAct P) (view : TaskView P) :
    (if c then [act] else []).foldl ViewAct.act view = if c then act.act view else view := by
  split <;> rfl

private theorem effect_eq_acts {event : DaemonEvent P} (hreload : event.reloads = false)
    (id : String)
    (view : TaskView P) : view.effect id event = (viewActs id event).foldl ViewAct.act view := by
  cases event with
  | snapshotReplaced replacement => cases hreload
  | tablesReloading tasks queue => cases hreload
  | taskRuntimeChanged runtime => rw [viewActs, foldl_ite]; rfl
  | taskChanged task => rw [viewActs, foldl_ite]; rfl
  | tasksChanged tasks => simp only [viewActs, List.foldl_flatMap, foldl_ite]; rfl
  | taskDeleted taskId => rw [viewActs, foldl_ite]; rfl
  | tasksDeleted taskIds => rw [viewActs, foldl_ite]; rfl
  | engine message =>
    cases message with
    | taskProgress progress =>
      simp only [viewActs, engineActs, TaskView.effect, TaskView.engineEffect, TaskView.progressed]
      by_cases hid : id = progress.taskId
      · rw [if_pos hid, if_pos hid]
        split <;> rfl
      · rw [if_neg hid, if_neg hid]
        rfl
    | segmentProgress taskId totalBytes segments => rw [viewActs, engineActs, foldl_ite]; rfl
    | taskMetaProbed taskId fileName totalBytes => rw [viewActs, engineActs, foldl_ite]; rfl
    | taskQueueChanged taskId queueId => rw [viewActs, engineActs, foldl_ite]; rfl
    | taskRouteChanged taskId route => rw [viewActs, engineActs, foldl_ite]; rfl
    | fileMissingChanged updates =>
      simp only [viewActs, engineActs, List.foldl_flatMap, foldl_ite]
      rfl
    | _ => rfl
  | _ => rfl

/-! ## Views with one status and the same readings -/

/-- The views have the same status and the same readings. -/
structure TaskView.Same (view view' : TaskView P) : Prop where
  status : view.row.map TaskDto.status = view'.row.map TaskDto.status
  runtime : view.runtime = view'.runtime

namespace TaskView

variable {view view' : TaskView P}

private theorem map_map_status (f : TaskDto P → TaskDto P) (g : Int → Int)
    (h : ∀ row, (f row).status = g row.status) (row : Option (TaskDto P)) :
    (row.map f).map TaskDto.status = (row.map TaskDto.status).map g := by
  cases row with
  | none => rfl
  | some row => exact congrArg some (h row)

/-- A change does the same to views with one status and the same readings. -/
theorem Same.act (h : view.Same view') (act : ViewAct P) :
    (act.act view).Same (act.act view') := by
  have hretained : view.retainedStatus = view'.retainedStatus := by
    rw [retainedStatus, retainedStatus, h.status]
  cases act with
  | sampled runtime =>
    have haccepted : view.acceptedStatus runtime = view'.acceptedStatus runtime := by
      rw [acceptedStatus, acceptedStatus, stale, stale, h.runtime, hretained]
    simp only [ViewAct.act, sampled, haccepted]
    cases view'.acceptedStatus runtime with
    | none => exact h
    | some status => exact ⟨h.status, by rw [h.runtime]⟩
  | stored taskId totalBytes segments =>
    simp only [ViewAct.act, stored, hretained]
    cases view'.retainedStatus with
    | none => exact h
    | some status => exact ⟨h.status, by rw [h.runtime]⟩
  | put task => exact ⟨rfl, congrArg (settled task.status) h.runtime⟩
  | advanced progress =>
    refine ⟨?_, congrArg (settled progress.status) h.runtime⟩
    have hupdate := map_map_status (P := P) progress.update (fun _ ↦ progress.status) fun _ ↦ rfl
    rw [ViewAct.act, ViewAct.act, hupdate, hupdate, h.status]
  | rewritten f hf =>
    refine ⟨?_, h.runtime⟩
    have hstatus := map_map_status f (fun status ↦ status) hf
    rw [ViewAct.act, ViewAct.act, rewritten, rewritten, hstatus, hstatus, h.status]
  | removed => exact ⟨rfl, rfl⟩
  | reloaded row => exact ⟨rfl, by rw [ViewAct.act, ViewAct.act, reloaded, reloaded, h.runtime]⟩

/-- Views that are alike stay alike. -/
theorem Same.acts (h : view.Same view') (acts : List (ViewAct P)) :
    (acts.foldl ViewAct.act view).Same (acts.foldl ViewAct.act view') := by
  induction acts generalizing view view' with
  | nil => exact h
  | cons act acts ih => exact ih (h.act act)

end TaskView

/-! ## Readings up to a status -/

/-- The readings are the same when the task takes the status. -/
def SettleAlike (status : Int) (runtime runtime' : Option (TaskRuntimeDto P)) : Prop :=
  settled status runtime = settled status runtime'

namespace SettleAlike

variable {status : Int} {runtime runtime' : Option (TaskRuntimeDto P)}

private theorem of_not_retained (h : runtimeRetained status = false) :
    SettleAlike status runtime runtime' := by
  simp [SettleAlike, settled, h]

private theorem iff_of_active (h : runtimeRetained status = true)
    (hactive : inactive status = false) :
    SettleAlike status runtime runtime' ↔ runtime = runtime' := by
  simp [SettleAlike, settled, h, hactive]

private theorem iff_of_inactive (h : runtimeRetained status = true)
    (hinactive : inactive status = true) :
    SettleAlike status runtime runtime' ↔
      runtime.map zeroRuntimeActivity = runtime'.map zeroRuntimeActivity := by
  simp [SettleAlike, settled, h, hinactive]

/-- Taking another status first changes nothing. -/
theorem settled_both (h : SettleAlike status runtime runtime') (status' : Int) :
    SettleAlike status (settled status' runtime) (settled status' runtime') := by
  cases hretained' : runtimeRetained status' with
  | false => simp [SettleAlike, settled, hretained']
  | true =>
    cases hretained : runtimeRetained status with
    | false => exact of_not_retained hretained
    | true =>
      cases hinactive : inactive status with
      | false => rw [(iff_of_active hretained hinactive).mp h]; exact rfl
      | true =>
        rw [iff_of_inactive hretained hinactive] at h ⊢
        cases hinactive' : inactive status' with
        | false => simpa [settled, hretained', hinactive'] using h
        | true =>
          simp only [settled, hretained', hinactive', Bool.not_true, Bool.false_eq_true, if_false,
            if_true]
          rw [h]

/-- What two entries with the same readings but their activity have in common. -/
theorem zero_spec {first second : TaskRuntimeDto P}
    (h : zeroRuntimeActivity first = zeroRuntimeActivity second) :
    first.sampleSequence = second.sampleSequence ∧
      (first.segments.map fun segment ↦ { segment with active := some false }) =
        second.segments.map fun segment ↦ { segment with active := some false } := by
  have hfields := TaskRuntimeDto.mk.inj h
  exact ⟨hfields.2.2.1, hfields.2.2.2.2.2.2.2.1⟩

/-- A sample is older than both or than none. -/
theorem stale_eq {view view' : TaskView P} (h : SettleAlike status view.runtime view'.runtime)
    (hretained : runtimeRetained status = true) (runtime : TaskRuntimeDto P) :
    view.stale runtime = view'.stale runtime := by
  cases hinactive : inactive status with
  | false => rw [TaskView.stale, (iff_of_active hretained hinactive).mp h, TaskView.stale]
  | true =>
    have hmap := (iff_of_inactive hretained hinactive).mp h
    unfold TaskView.stale
    cases hfirst : view.runtime with
    | none =>
      cases hsecond : view'.runtime with
      | none => rfl
      | some second => simp [hfirst, hsecond] at hmap
    | some first =>
      cases hsecond : view'.runtime with
      | none => simp [hfirst, hsecond] at hmap
      | some second =>
        rw [hfirst, hsecond] at hmap
        rw [Option.any_some, Option.any_some, (zero_spec (Option.some.inj hmap)).1]

/-- Samples under two statuses, which show activity alike if the status to come does. -/
theorem sampled (h : SettleAlike status runtime runtime')
    (hretained : runtimeRetained status = true) {status₁ status₂ : Int}
    (hstatus : inactive status = false → inactive status₁ = inactive status₂)
    (sample : TaskRuntimeDto P) :
    SettleAlike status (some (sampledRuntime runtime status₁ sample))
      (some (sampledRuntime runtime' status₂ sample)) := by
  cases hinactive : inactive status with
  | false =>
    rw [iff_of_active hretained hinactive] at h ⊢
    simp only [sampledRuntime, hstatus hinactive, h]
  | true =>
    rw [iff_of_inactive hretained hinactive] at h ⊢
    have hsegments : (runtime.elim sample.segments TaskRuntimeDto.segments).map
        (fun segment ↦ { segment with active := some false }) =
          (runtime'.elim sample.segments TaskRuntimeDto.segments).map
            fun segment ↦ { segment with active := some false } := by
      cases runtime with
      | none =>
        cases runtime' with
        | none => rfl
        | some second => cases h
      | some first =>
        cases runtime' with
        | none => cases h
        | some second => exact (zero_spec (Option.some.inj h)).2
    have hzero : ∀ (previous : Option (TaskRuntimeDto P)) (st : Int),
        zeroRuntimeActivity (sampledRuntime previous st sample) =
          { sample with
            activeTransfers := some 0
            connectedPeers := some 0
            segments :=
              if sample.segments.isEmpty then
                (previous.elim sample.segments TaskRuntimeDto.segments).map
                  fun segment ↦ { segment with active := some false }
              else sample.segments.map fun segment ↦ { segment with active := some false } } := by
      intro previous st
      unfold sampledRuntime zeroRuntimeActivity
      cases inactive st <;> cases sample.segments.isEmpty <;> simp [Function.comp_def]
    rw [Option.map_some, Option.map_some, hzero, hzero, hsegments]

/-- Stored segments under two statuses, which show activity alike if the status to come does. -/
theorem stored (h : SettleAlike status runtime runtime') (hretained : runtimeRetained status = true)
    {status₁ status₂ : Int}
    (hstatus : inactive status = false → inactive status₁ = inactive status₂)
    (taskId : String) (totalBytes : Int) (segments : List SegmentDetailDto) :
    SettleAlike status
      (some (storedRuntime status₁ totalBytes segments
        (runtime.getD (blankRuntime taskId status₁))))
      (some (storedRuntime status₂ totalBytes segments
        (runtime'.getD (blankRuntime taskId status₂)))) := by
  cases hinactive : inactive status with
  | false =>
    rw [iff_of_active hretained hinactive] at h ⊢
    have hsame := hstatus hinactive
    have hblank : blankRuntime (P := P) taskId status₁ = blankRuntime taskId status₂ := by
      simp only [blankRuntime, hsame]
    rw [h, hblank]
    simp only [storedRuntime, hsame]
  | true =>
    rw [iff_of_inactive hretained hinactive] at h ⊢
    have hgetD : zeroRuntimeActivity (runtime.getD (blankRuntime taskId status₁)) =
        zeroRuntimeActivity (runtime'.getD (blankRuntime taskId status₂)) := by
      cases runtime with
      | none =>
        cases runtime' with
        | none => rfl
        | some second => cases h
      | some first =>
        cases runtime' with
        | none => cases h
        | some second => exact Option.some.inj h
    rw [Option.map_some, Option.map_some]
    generalize runtime.getD (blankRuntime taskId status₁) = first at hgetD ⊢
    generalize runtime'.getD (blankRuntime taskId status₂) = second at hgetD ⊢
    have hsequence := (zero_spec hgetD).1
    unfold storedRuntime
    rw [hsequence]
    split
    · have hfields := TaskRuntimeDto.mk.inj hgetD
      simp only [zeroRuntimeActivity, List.map_map, Function.comp_def, Option.some.injEq,
        TaskRuntimeDto.mk.injEq]
      simp only [hfields, and_self]
    · rw [hgetD]

end SettleAlike

/-! ## A client that takes the changes once more -/

/-- The change reads a transfer. -/
def ViewAct.reads : ViewAct P → Bool
  | .sampled _ => true
  | .stored _ _ _ => true
  | _ => false

namespace TaskView

/-- The task is there and transfers. -/
def active (view : TaskView P) : Bool := view.row.any fun task ↦ !inactive task.status

/-- The readings are those that stay of a task with the row. -/
def Settled (view : TaskView P) : Prop :=
  view.runtime = view.row.bind fun task ↦ settled task.status view.runtime

/-- A status under which a task transfers is one under which readings are taken. -/
theorem retained_of_active {status : Int} (h : inactive status = false) :
    runtimeRetained status = true := by
  simp [inactive] at h
  simp only [runtimeRetained, bne_iff_ne]
  omega

private theorem active_iff {view : TaskView P} :
    view.active = true ↔ ∃ task, view.row = some task ∧ inactive task.status = false := by
  rw [active, Option.any_eq_true]
  simp only [Bool.not_eq_true']

private theorem Settled.of_active {view : TaskView P} (h : view.active = true) : view.Settled := by
  obtain ⟨task, hrow, hactive⟩ := active_iff.mp h
  have hretained := retained_of_active hactive
  rw [Settled, hrow]
  simp [settled, hretained, hactive]

/-- A task without a row has no readings. -/
theorem Settled.of_row {view : TaskView P} (h : view.Settled) (hrow : view.row = none) :
    view.runtime = none := by
  rw [Settled, hrow] at h
  exact h

/-- Readings that were settled under the status of the row are settled. -/
theorem settled_of_status {row : Option (TaskDto P)} {runtime : Option (TaskRuntimeDto P)}
    {status : Int} (hstatus : ∀ task ∈ row, task.status = status)
    (habsent : row = none → settled status runtime = none) :
    (⟨row, settled status runtime⟩ : TaskView P).Settled := by
  cases row with
  | none => exact habsent rfl
  | some task =>
    have htask := hstatus task rfl
    show settled status runtime = settled task.status (settled status runtime)
    rw [htask, settled_idem]

private theorem settled_reloaded (row : Option (TaskDto P)) (view : TaskView P) :
    (view.reloaded row).Settled := by
  cases row with
  | none => rfl
  | some task => exact (settled_idem task.status view.runtime).symm

end TaskView

/-- A client behind the server, where the row that was loaded has the status. Its readings are those
of the server when the task takes this status. -/
structure Behind (status : Option Int) (client server : TaskView P) : Prop where
  readings : ∀ st ∈ status, SettleAlike st client.runtime server.runtime
  row : server.row = none ∨ client.row.map TaskDto.status = status ∨
    client.row.map TaskDto.status = server.row.map TaskDto.status
  absent : client.row = none → client.runtime = none
  client : server.active = true ∨ client.Settled
  server : server.Settled

namespace Behind

variable {status : Option Int} {client server : TaskView P}

/-- A client that puts the loaded row in is behind the server. -/
theorem start {row : Option (TaskDto P)} (h : server.Settled) :
    Behind (row.map TaskDto.status) (server.reloaded row) server where
  readings st hst := by
    cases row with
    | none => cases hst
    | some task =>
      obtain rfl : task.status = st := Option.some.inj hst
      exact settled_idem task.status server.runtime
  row := .inr (.inl rfl)
  absent hrow := by
    rw [show row = none from hrow]
    rfl
  client := .inr (TaskView.settled_reloaded row server)
  server := h

/-- A reading that the server takes of an active task. -/
theorem reading (h : Behind status client server) (hactive : server.active = true)
    {client' server' : TaskView P} (hclient : client'.row = client.row)
    (hserver : server'.row = server.row)
    (hreadings : ∀ st ∈ status, SettleAlike st client'.runtime server'.runtime)
    (habsent : client.row = none → client'.runtime = client.runtime) :
    Behind status client' server' where
  readings := hreadings
  row := by rw [hclient, hserver]; exact h.row
  absent hrow := by
    rw [hclient] at hrow
    rw [habsent hrow, h.absent hrow]
  client := .inl (by rw [TaskView.active, hserver]; exact hactive)
  server := .of_active (by rw [TaskView.active, hserver]; exact hactive)

/-- The status under which the client takes a reading that the server takes of an active task, if
the loaded row or the server's can be read at all. -/
theorem retained (h : Behind status client server) {task : TaskDto P}
    (hrow : server.row = some task) (hactive : inactive task.status = false) {st : Int}
    (hst : status = some st) (hretained : runtimeRetained st = true) :
    ∃ current, client.retainedStatus = some current ∧
      (inactive st = false → inactive current = inactive task.status) := by
  rcases h.row with hnone | hloaded | hsame
  · rw [hnone] at hrow
    cases hrow
  · refine ⟨st, ?_, fun hst ↦ hst.trans hactive.symm⟩
    rw [TaskView.retainedStatus, hloaded, hst, Option.filter_some, if_pos hretained]
  · refine ⟨task.status, ?_, fun _ ↦ rfl⟩
    rw [TaskView.retainedStatus, hsame, hrow, Option.map_some, Option.filter_some,
      if_pos (TaskView.retained_of_active hactive)]

private theorem sampled (h : Behind status client server) (hactive : server.active = true)
    (runtime : TaskRuntimeDto P) :
    Behind status (client.sampled runtime) (server.sampled runtime) := by
  have hkeep : ∀ view : TaskView P, (view.sampled runtime).row = view.row := by
    intro view
    unfold TaskView.sampled
    split <;> rfl
  refine h.reading hactive (hkeep client) (hkeep server) ?_ ?_
  · obtain ⟨task, hrow, htask⟩ := TaskView.active_iff.mp hactive
    intro st hst
    cases hretained : runtimeRetained st with
    | false => exact SettleAlike.of_not_retained hretained
    | true =>
      have hreadings := h.readings st hst
      obtain ⟨current, hcurrent, hinactive⟩ := h.retained hrow htask hst hretained
      have hserver : server.retainedStatus = some task.status := by
        rw [TaskView.retainedStatus, hrow, Option.map_some, Option.filter_some,
          if_pos (TaskView.retained_of_active htask)]
      have hstale := hreadings.stale_eq hretained runtime
      simp only [TaskView.sampled, TaskView.acceptedStatus, hcurrent, hserver, hstale]
      cases server.stale runtime with
      | true => exact hreadings
      | false => exact hreadings.sampled hretained hinactive runtime
  · intro hrow
    have hnone : client.retainedStatus = none := by rw [TaskView.retainedStatus, hrow]; rfl
    simp [TaskView.sampled, TaskView.acceptedStatus, hnone]

private theorem stored (h : Behind status client server) (hactive : server.active = true)
    (taskId : String) (totalBytes : Int) (segments : List SegmentDetailDto) :
    Behind status (client.stored taskId totalBytes segments)
      (server.stored taskId totalBytes segments) := by
  have hkeep : ∀ view : TaskView P,
      (view.stored taskId totalBytes segments).row = view.row := by
    intro view
    unfold TaskView.stored
    split <;> rfl
  refine h.reading hactive (hkeep client) (hkeep server) ?_ ?_
  · obtain ⟨task, hrow, htask⟩ := TaskView.active_iff.mp hactive
    intro st hst
    cases hretained : runtimeRetained st with
    | false => exact SettleAlike.of_not_retained hretained
    | true =>
      obtain ⟨current, hcurrent, hinactive⟩ := h.retained hrow htask hst hretained
      have hserver : server.retainedStatus = some task.status := by
        rw [TaskView.retainedStatus, hrow, Option.map_some, Option.filter_some,
          if_pos (TaskView.retained_of_active htask)]
      simp only [TaskView.stored, hcurrent, hserver]
      exact (h.readings st hst).stored hretained hinactive taskId totalBytes segments
  · intro hrow
    have hnone : client.retainedStatus = none := by rw [TaskView.retainedStatus, hrow]; rfl
    simp [TaskView.stored, hnone]

/-- A row that both take. -/
theorem replaced (h : Behind status client server) (row : Option (TaskDto P)) :
    Behind status (client.reloaded row) (server.reloaded row) where
  readings st hst := by
    cases row with
    | none => exact rfl
    | some task => exact (h.readings st hst).settled_both task.status
  row := .inr (.inr rfl)
  absent hrow := by
    rw [show row = none from hrow]
    rfl
  client := .inr (TaskView.settled_reloaded row client)
  server := TaskView.settled_reloaded row server

/-- Progress that both take. -/
theorem advanced (h : Behind status client server) (progress : TaskProgress) :
    Behind status (ViewAct.act client (.advanced progress))
      (ViewAct.act server (.advanced progress)) := by
  have hsettled : ∀ view : TaskView P, (view.row = none → view.runtime = none) →
      (ViewAct.act view (.advanced progress)).Settled := by
    intro view habsent
    apply TaskView.settled_of_status
    · intro task htask
      obtain ⟨old, -, rfl⟩ := Option.map_eq_some_iff.mp htask
      rfl
    · intro hrow
      rw [habsent (Option.map_eq_none_iff.mp hrow)]
      simp [settled]
  refine ⟨fun st hst ↦ (h.readings st hst).settled_both progress.status, ?_, ?_,
    .inr (hsettled client h.absent), hsettled server fun hrow ↦ h.server.of_row hrow⟩
  · cases hserver : server.row with
    | none => exact .inl (by rw [ViewAct.act, hserver]; rfl)
    | some old =>
      cases hclient : client.row with
      | some row => exact .inr (.inr (by rw [ViewAct.act, ViewAct.act, hclient, hserver]; rfl))
      | none =>
        have hrow := h.row
        rw [hclient, hserver] at hrow
        have hstatus : none = status := by simpa using hrow
        exact .inr (.inl (by rw [ViewAct.act, hclient]; exact hstatus))
  · intro hrow
    show settled progress.status client.runtime = none
    rw [h.absent (Option.map_eq_none_iff.mp hrow)]
    simp [settled]

private theorem rewritten (h : Behind status client server) {f : TaskDto P → TaskDto P}
    (hf : ∀ row, (f row).status = row.status) :
    Behind status (client.rewritten f) (server.rewritten f) := by
  have hmap : ∀ row : Option (TaskDto P),
      (row.map f).map TaskDto.status = row.map TaskDto.status := by
    intro row
    cases row with
    | none => rfl
    | some row => exact congrArg some (hf row)
  have hactive : ∀ view : TaskView P, (view.rewritten f).active = view.active := by
    intro view
    unfold TaskView.active TaskView.rewritten
    cases view.row with
    | none => rfl
    | some row => simp only [Option.map_some, Option.any_some, hf]
  have hsettled : ∀ view : TaskView P, view.Settled → (view.rewritten f).Settled := by
    intro view hview
    unfold TaskView.Settled TaskView.rewritten
    rw [TaskView.Settled] at hview
    cases hrow : view.row with
    | none => simpa [hrow] using hview
    | some row => simpa [hrow, hf] using hview
  refine ⟨h.readings, ?_, ?_, ?_, hsettled server h.server⟩
  · simpa only [TaskView.rewritten, hmap, Option.map_eq_none_iff] using h.row
  · intro hrow
    exact h.absent (Option.map_eq_none_iff.mp hrow)
  · rw [hactive]
    exact h.client.imp_right (hsettled client)

/-- A change keeps the client behind when a reading is one of an active task. -/
theorem act (h : Behind status client server) {act : ViewAct P}
    (hreads : act.reads = true → server.active = true) :
    Behind status (act.act client) (act.act server) := by
  cases act with
  | sampled runtime => exact h.sampled (hreads rfl) runtime
  | stored taskId totalBytes segments => exact h.stored (hreads rfl) taskId totalBytes segments
  | put task => exact h.replaced (some task)
  | advanced progress => exact h.advanced progress
  | rewritten f hf => exact h.rewritten hf
  | removed => exact h.replaced none
  | reloaded row => exact h.replaced row

/-- Changes keep the client behind when every reading is one of a task active at that time. -/
theorem acts (h : Behind status client server) {acts : List (ViewAct P)}
    (hreads : EveryStep ViewAct.act (fun view act ↦ act.reads = true → view.active = true) server
      acts) :
    Behind status (run ViewAct.act client acts) (run ViewAct.act server acts) := by
  induction acts generalizing client server with
  | nil => exact h
  | cons act acts ih => exact ih (h.act hreads.1) hreads.2

/-- A client that has the row which the server came to has its readings. -/
theorem same (h : Behind status client server)
    (hclient : client.row.map TaskDto.status = status)
    (hserver : server.row.map TaskDto.status = status) : client.Same server := by
  refine ⟨hclient.trans hserver.symm, ?_⟩
  cases hactive : server.active with
  | true =>
    obtain ⟨task, hrow, htask⟩ := TaskView.active_iff.mp hactive
    have hst : status = some task.status := by rw [← hserver, hrow]; rfl
    have hreadings := h.readings task.status hst
    exact (SettleAlike.iff_of_active (TaskView.retained_of_active htask) htask).mp hreadings
  | false =>
    have hsettled : client.Settled := h.client.resolve_left (by simp [hactive])
    cases status with
    | none =>
      rw [hsettled.of_row (Option.map_eq_none_iff.mp hclient),
        h.server.of_row (Option.map_eq_none_iff.mp hserver)]
    | some st =>
      obtain ⟨row, hrow, hst⟩ := Option.map_eq_some_iff.mp hclient
      obtain ⟨row', hrow', hst'⟩ := Option.map_eq_some_iff.mp hserver
      have hserverSettled := h.server
      rw [TaskView.Settled, hrow, Option.bind_some, hst] at hsettled
      rw [TaskView.Settled, hrow', Option.bind_some, hst'] at hserverSettled
      rw [hsettled, hserverSettled]
      exact h.readings st rfl

end Behind

/-! ## Runs -/

/-- The server takes a reading of a task that transfers. -/
def ReadsActive (snapshot : DaemonSnapshot P) : DaemonEvent P → Prop
  | .taskRuntimeChanged runtime => (snapshot.view runtime.taskId).active = true
  | .engine (.segmentProgress taskId _ _) => (snapshot.view taskId).active = true
  | _ => True

variable {snapshot : DaemonSnapshot P} {events : List (DaemonEvent P)} {id : String}

/-- The view of a task after events. -/
theorem view_run (hreload : ∀ event ∈ events, event.reloads = false) (id : String) :
    (run applyDaemonEvent snapshot events).view id =
      run ViewAct.act (snapshot.view id) (events.flatMap (viewActs id)) := by
  induction events generalizing snapshot with
  | nil => rfl
  | cons event events ih =>
    rw [List.forall_mem_cons] at hreload
    rw [run_cons, ih hreload.2, view_applyDaemonEvent, effect_eq_acts hreload.1, List.flatMap_cons,
      run_append]
    rfl

private theorem eq_of_mem_ite {c : Prop} [Decidable c] {act act' : ViewAct P}
    (h : act ∈ if c then [act'] else []) : act = act' := by
  split at h
  · exact List.mem_singleton.mp h
  · cases h

private theorem reads_viewActs {event : DaemonEvent P} (hreads : ReadsActive snapshot event)
    (id : String) :
    EveryStep ViewAct.act (fun view act ↦ act.reads = true → view.active = true)
      (snapshot.view id) (viewActs id event) := by
  have hskip : ∀ acts : List (ViewAct P), (∀ act ∈ acts, act.reads = false) →
      EveryStep ViewAct.act (fun view act ↦ act.reads = true → view.active = true)
        (snapshot.view id) acts := by
    intro acts hacts
    apply EveryStep.of_forall_mem
    intro act hact view hreads
    rw [hacts act hact] at hreads
    cases hreads
  have hsingle : ∀ act : ViewAct P, act.reads = false →
      EveryStep ViewAct.act (fun view act ↦ act.reads = true → view.active = true)
        (snapshot.view id) [act] := fun act hact ↦ hskip [act] (by simpa using hact)
  have hone : ∀ (c : Prop) [Decidable c] (act : ViewAct P), act.reads = false →
      EveryStep ViewAct.act (fun view act ↦ act.reads = true → view.active = true)
        (snapshot.view id) (if c then [act] else []) := by
    intro c _ act hact
    apply hskip
    intro act' hact'
    rw [eq_of_mem_ite hact', hact]
  cases event with
  | taskRuntimeChanged runtime =>
    rw [viewActs]
    split
    · next hid =>
      subst hid
      exact ⟨fun _ ↦ hreads, trivial⟩
    · trivial
  | taskChanged task => exact hone _ _ rfl
  | tasksChanged tasks =>
    apply hskip
    intro act hact
    obtain ⟨task, -, hact⟩ := List.mem_flatMap.mp hact
    rw [eq_of_mem_ite hact]
    rfl
  | taskDeleted taskId => exact hone _ _ rfl
  | tasksDeleted taskIds => exact hone _ _ rfl
  | engine message =>
    cases message with
    | tasksSnapshot tasks => exact hsingle _ rfl
    | segmentProgress taskId totalBytes segments =>
      rw [viewActs, engineActs]
      split
      · next hid =>
        subst hid
        exact ⟨fun _ ↦ hreads, trivial⟩
      · trivial
    | taskProgress progress =>
      rw [viewActs, engineActs]
      split
      · split
        · exact hsingle _ rfl
        · exact hsingle _ rfl
      · trivial
    | taskMetaProbed taskId fileName totalBytes => exact hone _ _ rfl
    | taskQueueChanged taskId queueId => exact hone _ _ rfl
    | taskRouteChanged taskId route => exact hone _ _ rfl
    | fileMissingChanged updates =>
      apply hskip
      intro act hact
      obtain ⟨update, -, hact⟩ := List.mem_flatMap.mp hact
      rw [eq_of_mem_ite hact]
      rfl
    | _ => trivial
  | _ => trivial

/-- The readings that events make are of tasks active at that time. -/
theorem reads_acts (hreload : ∀ event ∈ events, event.reloads = false)
    (hreads : EveryStep applyDaemonEvent ReadsActive snapshot events) (id : String) :
    EveryStep ViewAct.act (fun view act ↦ act.reads = true → view.active = true)
      (snapshot.view id) (events.flatMap (viewActs id)) := by
  induction events generalizing snapshot with
  | nil => trivial
  | cons event events ih =>
    rw [List.forall_mem_cons] at hreload
    rw [List.flatMap_cons, everyStep_append]
    refine ⟨reads_viewActs hreads.1 id, ?_⟩
    have hview : (applyDaemonEvent snapshot event).view id =
        run ViewAct.act (snapshot.view id) (viewActs id event) := by
      rw [view_applyDaemonEvent, effect_eq_acts hreload.1]
      rfl
    rw [← hview]
    exact ih hreload.2 hreads.2

/-- A client whose row has the first events in it, and whose readings are those of before, has
after all events the readings of the server. -/
theorem replay_readings {client : DaemonSnapshot P} {before after : List (DaemonEvent P)}
    (hreload : ∀ event ∈ before ++ after, event.reloads = false)
    (hreads : EveryStep applyDaemonEvent ReadsActive snapshot before)
    (hsettled : (snapshot.view id).Settled)
    (hclient : client.view id =
      (snapshot.view id).reloaded (before.foldl (rowAfter id) (snapshot.task id))) :
    ((run applyDaemonEvent client (before ++ after)).view id).runtime =
      ((run applyDaemonEvent snapshot (before ++ after)).view id).runtime := by
  have hbefore : ∀ event ∈ before, event.reloads = false :=
    fun event hevent ↦ hreload event (List.mem_append_left after hevent)
  have hafter : ∀ event ∈ after, event.reloads = false :=
    fun event hevent ↦ hreload event (List.mem_append_right before hevent)
  have hserverRow : (run applyDaemonEvent snapshot before).task id =
      before.foldl (rowAfter id) (snapshot.task id) := task_run snapshot before id
  have hclientRow : (run applyDaemonEvent client before).task id =
      before.foldl (rowAfter id) (snapshot.task id) := by
    have hrow : client.task id = before.foldl (rowAfter id) (snapshot.task id) :=
      congrArg TaskView.row hclient
    have hreplay := replay_rows id (snapshot.task id) before []
    rw [List.append_nil] at hreplay
    rw [task_run, hrow, hreplay]
  have hstart : Behind ((before.foldl (rowAfter id) (snapshot.task id)).map TaskDto.status)
      (client.view id) (snapshot.view id) := by
    rw [hclient]
    exact Behind.start hsettled
  have hbehind := hstart.acts (reads_acts hbefore hreads id)
  rw [← view_run hbefore, ← view_run hbefore] at hbehind
  have hsame := hbehind.same (congrArg _ hclientRow) (congrArg _ hserverRow)
  rw [run_append, run_append, view_run hafter, view_run hafter]
  exact (hsame.acts _).runtime

end Protocol
