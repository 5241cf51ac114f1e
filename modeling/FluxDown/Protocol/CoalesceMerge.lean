import FluxDown.Protocol.EventLocality

/-!
# What a merged event does

Library `Protocol`. The event that stands for two of one entity leads a projection that lacks
the first of them where both lead it, and a projection that has the first where the second
leads it. For differences of the queue table this takes tables in order.
-/

namespace Protocol

open Base Engine.QueueOrder

variable {P : Payloads}

/-- A reload names a table, as every one that is published does
(`src/native/protocol/src/event.rs:578–601`). -/
def DaemonEvent.ReloadsSome : DaemonEvent P → Prop
  | .tablesReloading tasks queue => tasks.isSome ∨ queue.isSome
  | _ => True

/-- Two events in a row and the one that stands for both, from one projection. -/
structure Stands (merged old new : DaemonEvent P) (snapshot : DaemonSnapshot P) : Prop where
  /-- It does what both do. -/
  both : applyDaemonEvent snapshot merged =
    applyDaemonEvent (applyDaemonEvent snapshot old) new
  /-- After the first it does what the second does. -/
  again : applyDaemonEvent (applyDaemonEvent snapshot old) merged =
    applyDaemonEvent (applyDaemonEvent snapshot old) new

/-- An event that undoes what an earlier one did stands for both. -/
theorem stands_of_supersedes {old new : DaemonEvent P} {snapshot : DaemonSnapshot P}
    (h : applyDaemonEvent snapshot new = applyDaemonEvent (applyDaemonEvent snapshot old) new) :
    Stands new old new snapshot := ⟨h, rfl⟩

/-! ## Progress -/

private theorem zeroRuntimeActivity_idem (runtime : TaskRuntimeDto P) :
    zeroRuntimeActivity (zeroRuntimeActivity runtime) = zeroRuntimeActivity runtime := by
  simp [zeroRuntimeActivity, Function.comp_def]

/-- Settling twice is settling once. -/
theorem settled_idem (status : Int) (runtime : Option (TaskRuntimeDto P)) :
    settled status (settled status runtime) = settled status runtime := by
  unfold settled
  split
  · rfl
  · split
    · cases runtime <;> simp [zeroRuntimeActivity_idem]
    · rfl

private theorem settleRuntime_idem (taskRuntime : SortedMap String (TaskRuntimeDto P))
    (taskId : String) (status : Int) :
    settleRuntime (settleRuntime taskRuntime taskId status) taskId status =
      settleRuntime taskRuntime taskId status := by
  apply SortedMap.ext_get?
  intro id
  simp only [get?_settleRuntime]
  split
  · exact settled_idem status _
  · rfl

private theorem inherit_update (old new : TaskProgress) :
    (new.inherit old).update (P := P) = new.update ∘ old.update := by
  funext task
  simp only [TaskProgress.update, TaskProgress.inherit, Function.comp_apply, TaskDto.mk.injEq,
    and_true, true_and]
  refine ⟨?_, ?_, ?_⟩
  · by_cases h : new.url.isEmpty <;> simp [h]
  · by_cases h : new.fileName.isEmpty <;> simp [h]
  · by_cases h : new.saveDir.isEmpty <;> simp [h]

private theorem update_idem (progress : TaskProgress) :
    progress.update (P := P) ∘ progress.update = progress.update := by
  funext task
  simp only [TaskProgress.update, Function.comp_apply, TaskDto.mk.injEq, and_true, true_and]
  refine ⟨?_, ?_, ?_⟩
  · by_cases h : progress.url.isEmpty <;> simp [h]
  · by_cases h : progress.fileName.isEmpty <;> simp [h]
  · by_cases h : progress.saveDir.isEmpty <;> simp [h]

/-- A progress message as an operation on the task tables. -/
theorem applyProgress_eq {progress : TaskProgress} (hlive : progress.deleted = false)
    (snapshot : DaemonSnapshot P) :
    applyDaemonEvent snapshot (.engine (.taskProgress progress)) =
      { snapshot with
        tasks := modifyRow TaskDto.taskId progress.taskId progress.update snapshot.tasks
        taskRuntime := settleRuntime snapshot.taskRuntime progress.taskId progress.status } := by
  rw [applyDaemonEvent, applyEngineMessage, hlive]
  rfl

private theorem stands_progress {old new : TaskProgress} (hold : old.deleted = false)
    (hnew : new.deleted = false) (htask : old.taskId = new.taskId) (hstatus : old.status = new.status)
    (snapshot : DaemonSnapshot P) :
    Stands (.engine (.taskProgress (new.inherit old))) (.engine (.taskProgress old))
      (.engine (.taskProgress new)) snapshot := by
  have hmerged : (new.inherit old).deleted = false := hnew
  have hkeep : KeepsKey TaskDto.taskId new.taskId (old.update (P := P)) := fun _ h ↦ h
  have htwice : modifyRow TaskDto.taskId new.taskId (new.inherit old).update
      (modifyRow TaskDto.taskId new.taskId old.update snapshot.tasks) =
      modifyRow TaskDto.taskId new.taskId new.update
        (modifyRow TaskDto.taskId new.taskId old.update snapshot.tasks) := by
    rw [modifyRow_modifyRow hkeep, modifyRow_modifyRow hkeep, inherit_update, Function.comp_assoc,
      update_idem]
  constructor
  · rw [applyProgress_eq hmerged, applyProgress_eq hold, applyProgress_eq hnew, htask, hstatus]
    simp only [modifyRow_modifyRow hkeep, ← inherit_update, settleRuntime_idem]
    rfl
  · rw [applyProgress_eq hold, applyProgress_eq hmerged, applyProgress_eq hnew, htask]
    exact congrArg (fun tasks ↦ { snapshot with
      tasks := tasks
      taskRuntime := settleRuntime (settleRuntime snapshot.taskRuntime new.taskId old.status)
        new.taskId new.status }) htwice

/-! ## Readings -/

/-- Two events of the readings of one task: the later one supersedes the earlier one if it does
so in the view of the task. -/
theorem supersedes_of_view {old new : DaemonEvent P} (key : Key) (id : String)
    (hold : daemonTouch old = .keyed key) (hnew : daemonTouch new = .keyed key)
    (htask : key.task = some id)
    (hrows : ∀ (new' : DaemonEvent P), new' = old ∨ new' = new →
      (∀ rows, rowsAfter rows new' = rows) ∧
      ∀ snapshot : DaemonSnapshot P,
        (applyDaemonEvent snapshot new').exceptTasks = snapshot.exceptTasks)
    {snapshot : DaemonSnapshot P}
    (hview : (snapshot.view id).effect id new = ((snapshot.view id).effect id old).effect id new) :
    applyDaemonEvent snapshot new = applyDaemonEvent (applyDaemonEvent snapshot old) new := by
  apply DaemonSnapshot.ext_tasks
  · rw [(hrows new (.inr rfl)).2, (hrows new (.inr rfl)).2, (hrows old (.inl rfl)).2]
  · simp only [tasks_applyDaemonEvent, (hrows new (.inr rfl)).1, (hrows old (.inl rfl)).1]
  · apply SortedMap.ext_get?
    intro taskId
    have hviews : (applyDaemonEvent snapshot new).view taskId =
        (applyDaemonEvent (applyDaemonEvent snapshot old) new).view taskId := by
      simp only [view_applyDaemonEvent]
      by_cases hid : taskId = id
      · rw [hid, hview]
      · have hother : ∀ event : DaemonEvent P, daemonTouch event = .keyed key →
            (snapshot.view taskId).effect taskId event = snapshot.view taskId := by
          intro event hkey
          apply effect_untouched
          · rw [hkey]
            exact Touch.noConfusion
          · rw [hkey, Touch.taskIds, htask]
            simpa using hid
        rw [hother old hold, hother new hnew]
    exact congrArg TaskView.runtime hviews

private theorem sampledRuntime_of_segments {new : TaskRuntimeDto P}
    (hsegments : new.segments.isEmpty = false) (previous previous' : Option (TaskRuntimeDto P))
    (status : Int) : sampledRuntime previous status new = sampledRuntime previous' status new := by
  simp [sampledRuntime, hsegments]

private theorem sampleSequence_sampledRuntime (previous : Option (TaskRuntimeDto P)) (status : Int)
    (runtime : TaskRuntimeDto P) :
    (sampledRuntime previous status runtime).sampleSequence = runtime.sampleSequence := by
  by_cases h : inactive status <;> simp [sampledRuntime, h]

private theorem not_stale_of_newer {old new : TaskRuntimeDto P}
    (hnewer : old.sampleSequence < new.sampleSequence) {view : TaskView P}
    (h : view.stale old = false) : view.stale new = false := by
  unfold TaskView.stale at h ⊢
  cases hruntime : view.runtime with
  | none => rfl
  | some previous =>
    rw [hruntime] at h
    simp only [Option.any_some, Bool.and_eq_false_iff, decide_eq_false_iff_not] at h ⊢
    cases h with
    | inl h => exact .inl h
    | inr h => exact .inr (by omega)

private theorem sampled_supersedes {old new : TaskRuntimeDto P}
    (hsegments : new.segments.isEmpty = false) (hnewer : old.sampleSequence < new.sampleSequence)
    (view : TaskView P) : view.sampled new = (view.sampled old).sampled new := by
  cases hold : view.acceptedStatus old with
  | none =>
    have hsame : view.sampled old = view := by rw [TaskView.sampled, hold]
    rw [hsame]
  | some status =>
    have hsampled : view.sampled old =
        { view with runtime := some (sampledRuntime view.runtime status old) } := by
      rw [TaskView.sampled, hold]
    rw [TaskView.acceptedStatus] at hold
    split at hold
    · cases hold
    · next hfresh =>
      have hstale : view.stale new = false :=
        not_stale_of_newer hnewer (Bool.eq_false_iff.mpr hfresh)
      have hnew : view.acceptedStatus new = some status := by
        rw [TaskView.acceptedStatus, hstale, ← hold]
        rfl
      have hagain : (view.sampled old).acceptedStatus new = some status := by
        have hstale' : (view.sampled old).stale new = false := by
          rw [hsampled, TaskView.stale]
          simp [sampleSequence_sampledRuntime, hnewer]
        rw [TaskView.acceptedStatus, hstale', hsampled, ← hold]
        rfl
      rw [TaskView.sampled, hnew, TaskView.sampled, hagain, hsampled]
      simp only [sampledRuntime_of_segments hsegments view.runtime
        (some (sampledRuntime view.runtime status old))]

private theorem storedRuntime_storedRuntime (status oldTotal total : Int)
    (oldSegments segments : List SegmentDetailDto) (runtime : TaskRuntimeDto P) :
    storedRuntime status total segments (storedRuntime status oldTotal oldSegments runtime) =
      storedRuntime status total segments runtime := by
  by_cases h : runtime.sampleSequence = 0 <;> simp [storedRuntime, h]

private theorem stored_supersedes (taskId : String) (oldTotal total : Int)
    (oldSegments segments : List SegmentDetailDto) (view : TaskView P) :
    view.stored taskId total segments =
      (view.stored taskId oldTotal oldSegments).stored taskId total segments := by
  cases hstatus : view.retainedStatus with
  | none =>
    have hsame : view.stored taskId oldTotal oldSegments = view := by
      rw [TaskView.stored, hstatus]
    rw [hsame]
  | some status =>
    have hstored : view.stored taskId oldTotal oldSegments =
        { view with runtime := some (storedRuntime status oldTotal oldSegments
          (view.runtime.getD (blankRuntime taskId status))) } := by
      rw [TaskView.stored, hstatus]
    have hagain : (view.stored taskId oldTotal oldSegments).retainedStatus = some status := by
      rw [hstored, ← hstatus]
      rfl
    rw [TaskView.stored, hstatus, TaskView.stored, hagain, hstored]
    simp only [Option.getD_some, storedRuntime_storedRuntime]

private theorem stands_runtime {old new : TaskRuntimeDto P}
    (hsegments : new.segments.isEmpty = false) (hnewer : old.sampleSequence < new.sampleSequence)
    (htask : old.taskId = new.taskId) (snapshot : DaemonSnapshot P) :
    Stands (.taskRuntimeChanged new) (.taskRuntimeChanged old) (.taskRuntimeChanged new)
      snapshot := by
  apply stands_of_supersedes
  apply supersedes_of_view (.runtime new.taskId) new.taskId
  · rw [daemonTouch, htask]
  · rfl
  · rfl
  · intro event hevent
    have hreading : ∃ runtime, event = .taskRuntimeChanged runtime := by
      rcases hevent with rfl | rfl <;> exact ⟨_, rfl⟩
    obtain ⟨runtime, rfl⟩ := hreading
    refine ⟨fun rows ↦ rfl, fun s ↦ ?_⟩
    simp only [applyDaemonEvent]
    split <;> rfl
  · simp only [TaskView.effect, htask, if_pos]
    exact sampled_supersedes hsegments hnewer _

private theorem stands_segments (taskId : String) (oldTotal total : Int)
    (oldSegments segments : List SegmentDetailDto) (snapshot : DaemonSnapshot P) :
    Stands (.engine (.segmentProgress taskId total segments))
      (.engine (.segmentProgress taskId oldTotal oldSegments))
      (.engine (.segmentProgress taskId total segments)) snapshot := by
  apply stands_of_supersedes
  apply supersedes_of_view (.segments taskId) taskId rfl rfl rfl
  · intro event hevent
    have hreading : ∃ total segments, event = .engine (.segmentProgress taskId total segments) := by
      rcases hevent with rfl | rfl <;> exact ⟨_, _, rfl⟩
    obtain ⟨total, segments, rfl⟩ := hreading
    refine ⟨fun rows ↦ rfl, fun s ↦ ?_⟩
    simp only [applyDaemonEvent, applyEngineMessage]
    split <;> rfl
  · simp only [TaskView.effect, TaskView.engineEffect, if_pos]
    exact stored_supersedes taskId oldTotal total oldSegments segments _

/-! ## All entities -/

private theorem engineTouch_progress {progress : TaskProgress} {key : Key}
    (h : engineTouch (P := P) (.taskProgress progress) = .keyed key) :
    progress.deleted = false ∧ key = .progress progress.taskId := by
  rw [engineTouch] at h
  split at h
  · cases h
  · next hlive =>
    rw [Touch.keyed.injEq] at h
    exact ⟨Bool.eq_false_iff.mpr hlive, h.symm⟩

private theorem stands_of_replaced {old new : DaemonEvent P} {positions : List QueuePositionDto}
    {total : Option Nat} (hold : daemonTouch old = .keyed .queue)
    (hnew : ∀ snapshot : DaemonSnapshot P,
      applyDaemonEvent snapshot new = snapshot.withQueue positions total)
    (snapshot : DaemonSnapshot P) : Stands new old new snapshot := by
  apply stands_of_supersedes
  obtain ⟨f, hf⟩ := keyed_queue_cases hold
  rw [hnew, hnew, hf]
  rfl

/-- The message that two of one entity are merged into is of that entity and stands for both. -/
theorem mergeEngine_spec {old new merged : WsServerMsg P} {key : Key}
    (hmerge : mergeEngine old new = some merged) (hold : engineTouch old = .keyed key)
    (hnew : engineTouch new = .keyed key) :
    engineTouch merged = .keyed key ∧ ∀ snapshot : DaemonSnapshot P,
      InOrder snapshot.queuePositions →
      InOrder (applyEngineMessage snapshot old).queuePositions →
      InOrder (applyEngineMessage (applyEngineMessage snapshot old) new).queuePositions →
      Stands (.engine merged) (.engine old) (.engine new) snapshot := by
  cases new with
  | taskProgress new =>
    cases old with
    | taskProgress old =>
      obtain ⟨holdLive, holdKey⟩ := engineTouch_progress hold
      obtain ⟨hnewLive, hnewKey⟩ := engineTouch_progress hnew
      have htask : old.taskId = new.taskId := Key.progress.inj (holdKey.symm.trans hnewKey)
      simp only [mergeEngine] at hmerge
      split at hmerge
      · cases hmerge
      · next hstatus =>
        rw [Option.some.injEq] at hmerge
        subst hmerge
        exact ⟨hnew, fun snapshot _ _ _ ↦
          stands_progress holdLive hnewLive htask (not_not.mp hstatus) snapshot⟩
    | _ => cases hmerge
  | segmentProgress taskId total segments =>
    cases old with
    | segmentProgress oldTask oldTotal oldSegments =>
      rw [mergeEngine, Option.some.injEq] at hmerge
      subst hmerge
      have htask : oldTask = taskId := Key.segments.inj (Touch.keyed.inj (hold.trans hnew.symm))
      subst htask
      exact ⟨hnew, fun snapshot _ _ _ ↦
        stands_segments oldTask oldTotal total oldSegments segments snapshot⟩
    | _ => cases hmerge
  | queuePositionsChanged positions =>
    have hqueue : key = .queue := (Touch.keyed.inj hnew).symm
    have hsame : merged = .queuePositionsChanged positions := by
      cases old <;> exact (Option.some.inj hmerge).symm
    subst hsame hqueue
    have hold' : daemonTouch (.engine old) = .keyed .queue := hold
    have hnew' : ∀ snapshot : DaemonSnapshot P,
        applyDaemonEvent snapshot (.engine (.queuePositionsChanged positions)) =
          snapshot.withQueue positions none := fun _ ↦ rfl
    exact ⟨rfl, fun snapshot _ _ _ ↦ stands_of_replaced hold' hnew' snapshot⟩
  | queueOrderChanged removed added =>
    cases old with
    | queuePositionsChanged base =>
      rw [mergeEngine, Option.some.injEq] at hmerge
      subst hmerge
      exact ⟨hnew, fun snapshot _ _ _ ↦ ⟨rfl, rfl⟩⟩
    | queueOrderChanged oldRemoved oldAdded =>
      rw [mergeEngine, Option.some.injEq] at hmerge
      subst hmerge
      refine ⟨hnew, fun snapshot hbefore hbetween hafter ↦ ⟨?_, ?_⟩⟩
      · exact congrArg (snapshot.withQueue · snapshot.queueTotal)
          (applyQueueOrder_compose hbefore hafter)
      · exact congrArg (snapshot.withQueue · snapshot.queueTotal)
          (applyQueueOrder_replay hbetween hafter)
    | _ => cases hmerge
  | _ => cases hnew

/-- The event that two of one entity are merged into is of that entity and stands for both. -/
theorem mergeDaemon_spec {old new merged : DaemonEvent P} {key : Key}
    (hmerge : mergeDaemon old new = some merged) (hold : daemonTouch old = .keyed key)
    (hnew : daemonTouch new = .keyed key) (hreload : new.ReloadsSome) :
    daemonTouch merged = .keyed key ∧ ∀ snapshot : DaemonSnapshot P,
      InOrder snapshot.queuePositions →
      InOrder (applyDaemonEvent snapshot old).queuePositions →
      InOrder (applyDaemonEvent (applyDaemonEvent snapshot old) new).queuePositions →
      Stands merged old new snapshot := by
  cases new with
  | taskRuntimeChanged new =>
    cases old with
    | taskRuntimeChanged old =>
      have htask : old.taskId = new.taskId := Key.runtime.inj (Touch.keyed.inj (hold.trans hnew.symm))
      simp only [mergeDaemon] at hmerge
      split at hmerge
      · next hnewer =>
        simp only [Bool.and_eq_true, Bool.not_eq_true', decide_eq_true_eq] at hnewer
        rw [Option.some.injEq] at hmerge
        subst hmerge
        exact ⟨hnew, fun snapshot _ _ _ ↦ stands_runtime hnewer.1.1 hnewer.2 htask snapshot⟩
      · cases hmerge
    | _ => cases hmerge
  | runtimeStatsChanged stats =>
    cases old with
    | runtimeStatsChanged oldStats =>
      rw [mergeDaemon, Option.some.injEq] at hmerge
      subst hmerge
      exact ⟨hnew, fun snapshot _ _ _ ↦ stands_of_supersedes rfl⟩
    | _ => cases hmerge
  | tablesReloading tasks queue =>
    cases tasks with
    | some count => cases hnew
    | none =>
      cases queue with
      | none => cases hreload <;> contradiction
      | some count =>
        have hqueue : key = .queue := (Touch.keyed.inj hnew).symm
        have hsame : merged = .tablesReloading none (some count) := by
          cases old <;> exact (Option.some.inj hmerge).symm
        subst hsame hqueue
        have hnew' : ∀ snapshot : DaemonSnapshot P,
            applyDaemonEvent snapshot (.tablesReloading none (some count)) =
              snapshot.withQueue [] (some count) := fun _ ↦ rfl
        exact ⟨rfl, fun snapshot _ _ _ ↦ stands_of_replaced hold hnew' snapshot⟩
  | engine new =>
    cases old with
    | engine old =>
      rw [mergeDaemon, Option.map_eq_some_iff] at hmerge
      obtain ⟨message, hmerge, rfl⟩ := hmerge
      exact mergeEngine_spec hmerge hold hnew
    | _ => cases hmerge
  | _ => cases hnew

/-! ## Service events -/

/-- A reload that the event carries names a table. -/
def ServiceEvent.ReloadsSome (event : ServiceEvent P) : Prop :=
  ∀ e, event.daemonEvent = some e → e.ReloadsSome

/-- The queue table of the projection is in order. -/
def QueueInOrder (snapshot : AgentSnapshot P) : Prop := InOrder snapshot.daemon.queuePositions

private theorem refresh_supersedes {old new : ShareProgressDto P}
    (hsession : old.sessionId = new.sessionId) (receiver : ShareReceiverDto P) :
    new.refresh (old.refresh receiver) = new.refresh receiver := by
  unfold ShareProgressDto.refresh
  by_cases h : receiver.sessionId = new.sessionId <;> simp [h, hsession]

private theorem refreshFacts_supersedes {old new : ShareProgressDto P}
    (hsession : old.sessionId = new.sessionId) (facts : ShareTaskFactsDto P) :
    new.refreshFacts (old.refreshFacts facts) = new.refreshFacts facts := by
  unfold ShareProgressDto.refreshFacts
  by_cases h : facts.sessionId = some new.sessionId <;> simp [h, hsession]

/-- Progress of a session supersedes earlier progress of it. -/
theorem applyProgress_supersedes {old new : ShareProgressDto P}
    (hsession : old.sessionId = new.sessionId) (state : ShareStateDto P) :
    (state.applyProgress old).applyProgress new = state.applyProgress new := by
  unfold ShareStateDto.applyProgress
  congr 1
  · simp only [List.map_map]
    apply List.map_congr_left
    intro share _
    simp only [Function.comp_apply, List.map_map]
    congr 1
    apply List.map_congr_left
    intro receiver _
    exact refresh_supersedes hsession receiver
  · apply SortedMap.ext_get?
    intro task
    simp only [SortedMap.get?_mapValues, Option.map_map]
    congr 1
    funext facts
    exact refreshFacts_supersedes hsession facts

/-- Two service events in a row and the one that stands for both, from one projection. -/
structure StandsFor (merged old new : ServiceEvent P) (snapshot : AgentSnapshot P) : Prop where
  /-- It does what both do. -/
  both : applyServiceEvent snapshot merged =
    applyServiceEvent (applyServiceEvent snapshot old) new
  /-- After the first it does what the second does. -/
  again : applyServiceEvent (applyServiceEvent snapshot old) merged =
    applyServiceEvent (applyServiceEvent snapshot old) new

/-- What a daemon event of the service does. -/
theorem applyServiceEvent_daemon {event : ServiceEvent P} {e : DaemonEvent P}
    (h : event.daemonEvent = some e) (snapshot : AgentSnapshot P) :
    applyServiceEvent snapshot event =
      { snapshot with daemon := applyDaemonEvent snapshot.daemon e } := by
  cases event with
  | daemon event => cases h; rfl
  | agent event =>
    cases event with
    | daemon event => cases h; rfl
    | _ => cases h

/-- What a daemon event of the service touches. -/
theorem touch_daemon {event : ServiceEvent P} {e : DaemonEvent P} (h : event.daemonEvent = some e) :
    touch event = daemonTouch e := by
  cases event with
  | daemon event => cases h; rfl
  | agent event =>
    cases event with
    | daemon event => cases h; rfl
    | _ => cases h

/-- Two events of the daemon that are merged inside their service events. -/
theorem spec_of_daemon {old new merged : ServiceEvent P}
    {oldEvent newEvent mergedEvent : DaemonEvent P} {key : Key}
    (hold : old.daemonEvent = some oldEvent) (hnew : new.daemonEvent = some newEvent)
    (hmerged : merged.daemonEvent = some mergedEvent)
    (hmerge : mergeDaemon oldEvent newEvent = some mergedEvent)
    (holdKey : touch old = .keyed key) (hnewKey : touch new = .keyed key)
    (hreload : new.ReloadsSome) :
    touch merged = .keyed key ∧ ∀ snapshot : AgentSnapshot P,
      QueueInOrder snapshot → QueueInOrder (applyServiceEvent snapshot old) →
      QueueInOrder (applyServiceEvent (applyServiceEvent snapshot old) new) →
      StandsFor merged old new snapshot := by
  rw [touch_daemon hold] at holdKey
  rw [touch_daemon hnew] at hnewKey
  have hspec := mergeDaemon_spec hmerge holdKey hnewKey (hreload newEvent hnew)
  refine ⟨(touch_daemon hmerged).trans hspec.1, fun snapshot hbefore hbetween hafter ↦ ?_⟩
  rw [applyServiceEvent_daemon hold] at hbetween
  rw [applyServiceEvent_daemon hnew, applyServiceEvent_daemon hold] at hafter
  have hstands := hspec.2 snapshot.daemon hbefore hbetween hafter
  constructor
  · rw [applyServiceEvent_daemon hmerged, applyServiceEvent_daemon hnew,
      applyServiceEvent_daemon hold]
    exact congrArg (fun daemon ↦ { snapshot with daemon := daemon }) hstands.both
  · rw [applyServiceEvent_daemon hmerged, applyServiceEvent_daemon hnew,
      applyServiceEvent_daemon hold]
    exact congrArg (fun daemon ↦ { snapshot with daemon := daemon }) hstands.again

/-- The service event that two of one entity are merged into is of that entity and stands for
both; progress of a share session also leads a projection that lacks earlier progress where it
leads one that has it. -/
theorem merge_spec {old new merged : ServiceEvent P} {key : Key} (hmerge : merge old new = some merged)
    (hold : touch old = .keyed key) (hnew : touch new = .keyed key) (hreload : new.ReloadsSome) :
    touch merged = .keyed key ∧
    (∀ snapshot : AgentSnapshot P,
      QueueInOrder snapshot → QueueInOrder (applyServiceEvent snapshot old) →
      QueueInOrder (applyServiceEvent (applyServiceEvent snapshot old) new) →
      StandsFor merged old new snapshot) ∧
    ((∃ progress, old = .agent (.shareProgress progress)) → merged = new) := by
  have hdaemon : ∀ {wrap : DaemonEvent P → ServiceEvent P} {next : DaemonEvent P},
      (∀ e, (wrap e).daemonEvent = some e) → new = wrap next →
      (old.daemonEvent.bind fun previous ↦ (mergeDaemon previous next).map wrap) = some merged →
      touch merged = .keyed key ∧
      (∀ snapshot : AgentSnapshot P,
        QueueInOrder snapshot → QueueInOrder (applyServiceEvent snapshot old) →
        QueueInOrder (applyServiceEvent (applyServiceEvent snapshot old) new) →
        StandsFor merged old new snapshot) ∧
      ((∃ progress, old = .agent (.shareProgress progress)) → merged = new) := by
    intro wrap next hwrap hnext hbind
    rw [Option.bind_eq_some_iff] at hbind
    obtain ⟨previous, hprevious, hmap⟩ := hbind
    rw [Option.map_eq_some_iff] at hmap
    obtain ⟨event, hevent, hmerged⟩ := hmap
    have hspec := spec_of_daemon hprevious (hnext ▸ hwrap next) (hmerged ▸ hwrap event) hevent hold
      hnew hreload
    refine ⟨hspec.1, hspec.2, ?_⟩
    rintro ⟨progress, rfl⟩
    cases hprevious
  cases new with
  | daemon next => exact hdaemon (fun _ ↦ rfl) rfl (by simpa only [merge] using hmerge)
  | agent event =>
    cases event with
    | daemon next => exact hdaemon (fun _ ↦ rfl) rfl (by simpa only [merge] using hmerge)
    | shareProgress new =>
      have hprogress : ∃ progress, old = .agent (.shareProgress progress) := by
        cases old with
        | daemon event => cases hmerge
        | agent event =>
          cases event with
          | shareProgress progress => exact ⟨progress, rfl⟩
          | _ => cases hmerge
      obtain ⟨progress, rfl⟩ := hprogress
      simp only [merge] at hmerge
      split at hmerge
      · next hsession =>
        rw [Option.some.injEq] at hmerge
        subst hmerge
        refine ⟨hnew, fun snapshot _ _ _ ↦ ⟨?_, rfl⟩, fun _ ↦ rfl⟩
        exact congrArg (fun share ↦ { snapshot with share := share })
          (applyProgress_supersedes hsession snapshot.share).symm
      · cases hmerge
    | _ => cases hnew

end Protocol
