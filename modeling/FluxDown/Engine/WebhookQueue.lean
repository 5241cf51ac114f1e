import FluxDown.Base.Indexed
import FluxDown.Engine.WebhookLane

/-!
# What becomes of the jobs of an endpoint

Library `Engine`. Each step of the dispatcher is a step of the lane of each id or leaves it as it is,
so that what holds of lanes holds of the dispatcher, for every order of the steps of its parties.
-/

namespace Engine.Webhook

open Base

/-! ## The lane of an id -/

/-- The jobs of an id. -/
def ofId (id : String) (jobs : List Job) : List Job := jobs.filter fun job ↦ job.spec.id = id

/-- The reports of an id. -/
def reportsOf (id : String) (reports : List DroppedJobs) : List DroppedJobs :=
  reports.filter fun dropped ↦ dropped.spec.id = id

/-- The task of the queue is about to be notified by `emit`. -/
def EmitPhase.owes (queue : Option Nat) : EmitPhase → Bool
  | notifying q _ => queue = some q
  | _ => false

/-- The lane of an id. -/
def view (s : State) (id : String) : Lane where
  queue := ((s.map.get? id).bind fun q ↦ s.queues[q]?).getD {}
  phase := (((s.map.get? id).bind fun q ↦ s.workers[q]?).map Worker.phase).getD .polling
  owed := s.emit.owes (s.map.get? id)
  emitted := ofId id s.emitted
  handed := ofId id s.handed
  reported := reportsOf id s.reported

/-- Each id has one queue and each queue one task, its own. -/
structure Tables (s : State) : Prop where
  length_eq : s.workers.length = s.queues.length
  worker_queue : ∀ k (worker : Worker), s.workers[k]? = some worker → worker.queue = k
  map_lt : ∀ id q, s.map.get? id = some q → q < s.queues.length
  map_inj : ∀ id id' q, s.map.get? id = some q → s.map.get? id' = some q → id = id'
  map_onto : ∀ q < s.queues.length, ∃ id, s.map.get? id = some q
  pushing : ∀ q job rest, s.emit = .pushing q job rest → s.map.get? job.spec.id = some q

section View

variable {s : State} {id : String} {q k : Nat}

private theorem ofId_concat (jobs : List Job) (job : Job) :
    ofId id (jobs ++ [job]) = if job.spec.id = id then ofId id jobs ++ [job] else ofId id jobs := by
  simp only [ofId, List.filter_append, List.filter_cons, List.filter_nil]
  split <;> simp_all

private theorem reportsOf_concat (reports : List DroppedJobs) (dropped : DroppedJobs) :
    reportsOf id (reports ++ [dropped]) =
      if dropped.spec.id = id then reportsOf id reports ++ [dropped] else reportsOf id reports := by
  simp only [reportsOf, List.filter_append, List.filter_cons, List.filter_nil]
  split <;> simp_all

/-- A change of the queue of the id. -/
theorem view_onQueue (h : Tables s) (hid : s.map.get? id = some q) (f : EndpointQueue → EndpointQueue) :
    view (s.onQueue q f) id = { view s id with queue := f (view s id).queue } := by
  have hlt := h.map_lt id q hid
  simp only [view, State.onQueue, hid, Option.bind_some]
  rw [List.getElem?_modify_eq, List.getElem?_eq_getElem hlt]
  rfl

/-- A change of another queue. -/
theorem view_onQueue_ne (hid : s.map.get? id ≠ some q) (f : EndpointQueue → EndpointQueue) :
    view (s.onQueue q f) id = view s id := by
  cases hmap : s.map.get? id with
  | none => simp only [view, State.onQueue, hmap, Option.bind_none]
  | some q' =>
    have hne : q ≠ q' := fun hsame ↦ hid (hmap.trans (congrArg some hsame.symm))
    simp only [view, State.onQueue, hmap, Option.bind_some, List.getElem?_modify_ne _ _ hne]

/-- A step of the task of the id. -/
theorem view_setPhase (h : Tables s) (hid : s.map.get? id = some k) (phase : WorkerPhase) :
    view (s.setPhase k phase) id = { view s id with phase := phase } := by
  have hlt : k < s.workers.length := h.length_eq ▸ h.map_lt id k hid
  simp only [view, State.setPhase, hid, Option.bind_some]
  rw [List.getElem?_modify_eq, List.getElem?_eq_getElem hlt]
  rfl

/-- A step of another task. -/
theorem view_setPhase_ne (hid : s.map.get? id ≠ some k) (phase : WorkerPhase) :
    view (s.setPhase k phase) id = view s id := by
  cases hmap : s.map.get? id with
  | none => simp only [view, State.setPhase, hmap, Option.bind_none]
  | some k' =>
    have hne : k ≠ k' := fun hsame ↦ hid (hmap.trans (congrArg some hsame.symm))
    simp only [view, State.setPhase, hmap, Option.bind_some, List.getElem?_modify_ne _ _ hne]

/-- The task of an id. -/
theorem view_phase {worker : Worker} (hid : s.map.get? id = some k)
    (hworker : s.workers[k]? = some worker) : (view s id).phase = worker.phase := by
  simp only [view, hid, Option.bind_some, hworker, Option.map_some, Option.getD_some]

private theorem view_queue {queue : EndpointQueue} (hid : s.map.get? id = some q)
    (hqueue : s.queues[q]? = some queue) : (view s id).queue = queue := by
  simp only [view, hid, Option.bind_some, hqueue, Option.getD_some]

/-- The task that a notification wakes is that of the queue. -/
theorem notified_eq (h : Tables s)
    (hfound : s.workers.findIdx? (fun worker ↦ worker.queue = q && worker.phase = .waiting false) =
      some k) : k = q := by
  obtain ⟨hlt, hmatch, -⟩ := List.findIdx?_eq_some_iff_getElem.mp hfound
  simp only [Bool.and_eq_true, decide_eq_true_eq] at hmatch
  rw [← hmatch.1]
  exact (h.worker_queue k _ (List.getElem?_eq_getElem hlt)).symm

/-- What a notification does. -/
theorem notifyOne_eq (h : Tables s) {worker : Worker} (hworker : s.workers[q]? = some worker) :
    s.notifyOne q =
      if worker.phase = .waiting false then s.setPhase q (.waiting true)
      else s.onQueue q fun queue ↦ { queue with permit := true } := by
  unfold State.notifyOne
  cases hfound : s.workers.findIdx? fun worker ↦ worker.queue = q && worker.phase = .waiting false with
  | some k =>
    obtain ⟨hlt, hmatch, -⟩ := List.findIdx?_eq_some_iff_getElem.mp hfound
    obtain rfl := notified_eq h hfound
    rw [List.getElem?_eq_getElem hlt] at hworker
    obtain rfl := Option.some.inj hworker
    simp only [Bool.and_eq_true, decide_eq_true_eq] at hmatch
    rw [if_pos hmatch.2]
  | none =>
    have hnone := List.findIdx?_eq_none_iff.mp hfound worker (List.mem_of_getElem? hworker)
    rw [h.worker_queue q worker hworker] at hnone
    rw [if_neg (by simpa using hnone)]

/-- A notification in the lane of the id. -/
theorem view_notifyOne (h : Tables s) (hid : s.map.get? id = some q) :
    view (s.notifyOne q) id = (view s id).notify := by
  have hlt : q < s.workers.length := h.length_eq ▸ h.map_lt id q hid
  have hworker := List.getElem?_eq_getElem hlt
  have hphase := view_phase hid hworker
  rw [notifyOne_eq h hworker]
  split
  · next hasleep =>
    rw [Lane.notify, if_pos (hphase.trans hasleep)]
    exact view_setPhase h hid _
  · next hasleep =>
    rw [Lane.notify, if_neg (by rw [hphase]; exact hasleep)]
    exact view_onQueue h hid _

private theorem view_notifyOne_ne (h : Tables s) (hid : s.map.get? id ≠ some q) :
    view (s.notifyOne q) id = view s id := by
  unfold State.notifyOne
  cases hfound : s.workers.findIdx? fun worker ↦ worker.queue = q && worker.phase = .waiting false with
  | some k =>
    rw [notified_eq h hfound]
    exact view_setPhase_ne hid _
  | none => exact view_onQueue_ne hid _

end View

/-! ## The tables after a step -/

namespace Tables

variable {s : State}

private theorem empty : Tables {} where
  length_eq := rfl
  worker_queue k worker hworker := by cases hworker
  map_lt id q hid := by cases hid
  map_inj id id' q hid := by cases hid
  map_onto q hq := by cases hq
  pushing q job rest hemit := by cases hemit

/-- Changes of queues and of the phases of tasks. -/
theorem keep (h : Tables s) {s' : State} (hmap : s'.map = s.map) (hemit : s'.emit = s.emit)
    (hqueues : s'.queues.length = s.queues.length)
    (hworkers : s'.workers.map Worker.queue = s.workers.map Worker.queue) : Tables s' where
  length_eq := by
    have hlength := congrArg List.length hworkers
    simp only [List.length_map] at hlength
    rw [hlength, hqueues]
    exact h.length_eq
  worker_queue k worker hworker := by
    have hqueue : (s'.workers.map Worker.queue)[k]? = some worker.queue := by
      rw [List.getElem?_map, hworker, Option.map_some]
    rw [hworkers, List.getElem?_map, Option.map_eq_some_iff] at hqueue
    obtain ⟨old, hold, hsame⟩ := hqueue
    rw [← hsame]
    exact h.worker_queue k old hold
  map_lt id q hid := by
    rw [hmap] at hid
    rw [hqueues]
    exact h.map_lt id q hid
  map_inj := by
    rw [hmap]
    exact h.map_inj
  map_onto := by
    rw [hmap, hqueues]
    exact h.map_onto
  pushing := by
    rw [hmap, hemit]
    exact h.pushing

private theorem exists_queue (h : Tables s) {id : String} {q : Nat} (hid : s.map.get? id = some q) :
    ∃ queue, s.queues[q]? = some queue :=
  ⟨_, List.getElem?_eq_getElem (h.map_lt id q hid)⟩

/-- Changing a queue keeps the tables. -/
theorem onQueue (h : Tables s) (q : Nat) (f : EndpointQueue → EndpointQueue) :
    Tables (s.onQueue q f) :=
  h.keep rfl rfl (List.length_modify ..) rfl

/-- A phase of a worker keeps the tables. -/
theorem setPhase (h : Tables s) (k : Nat) (phase : WorkerPhase) : Tables (s.setPhase k phase) :=
  h.keep rfl rfl rfl <| by
    simp only [State.setPhase]
    rw [map_modify_of_view]
    exact fun worker ↦ rfl

/-- A notification keeps the tables. -/
theorem notifyOne (h : Tables s) (q : Nat) : Tables (s.notifyOne q) := by
  unfold State.notifyOne
  split
  · exact h.setPhase _ _
  · exact h.onQueue _ _

/-- `emit` goes on to where it has no job in hand. -/
theorem onEmit (h : Tables s) {emit : EmitPhase}
    (hpushing : ∀ q job rest, emit ≠ .pushing q job rest) : Tables { s with emit := emit } :=
  ⟨h.length_eq, h.worker_queue, h.map_lt, h.map_inj, h.map_onto,
    fun q job rest hemit ↦ absurd hemit (hpushing q job rest)⟩

/-- What a call for the queue of an id leaves. -/
theorem workerFor (h : Tables s) (job : Job) (rest : List Job) :
    Tables { (s.workerFor job.spec.id).2 with emit := .pushing (s.workerFor job.spec.id).1 job rest } := by
  unfold State.workerFor
  split
  · next q hid =>
    refine ⟨h.length_eq, h.worker_queue, h.map_lt, h.map_inj, h.map_onto, ?_⟩
    intro q' job' rest' hemit
    cases hemit
    exact hid
  · next hnone =>
    have hfresh : ∀ id, s.map.get? id ≠ some s.queues.length := by
      intro id hid
      exact Nat.lt_irrefl _ (h.map_lt id _ hid)
    refine ⟨?_, ?_, ?_, ?_, ?_, ?_⟩
    · simp only [List.length_append, List.length_singleton, h.length_eq]
    · intro k worker hworker
      rcases getElem?_concat_some hworker with ⟨hlast, rfl⟩ | hold
      · rw [hlast]
        exact h.length_eq.symm
      · exact h.worker_queue k worker hold
    · intro id q hid
      simp only [SortedMap.get?_insert, List.length_append, List.length_singleton] at hid ⊢
      split at hid
      · obtain rfl := Option.some.inj hid
        exact Nat.lt_succ_self _
      · exact Nat.lt_succ_of_lt (h.map_lt id q hid)
    · intro id id' q hid hid'
      simp only [SortedMap.get?_insert] at hid hid'
      split at hid <;> split at hid'
      · next hsame hsame' => rw [hsame, hsame']
      · exact absurd (hid ▸ hid') (hfresh id')
      · exact absurd (hid' ▸ hid) (hfresh id)
      · exact h.map_inj id id' q hid hid'
    · intro q hq
      simp only [List.length_append, List.length_singleton] at hq
      rcases Nat.lt_succ_iff_lt_or_eq.mp hq with hlt | rfl
      · obtain ⟨id, hid⟩ := h.map_onto q hlt
        refine ⟨id, ?_⟩
        rw [SortedMap.get?_insert, if_neg]
        · exact hid
        · intro hsame
          rw [hsame, hnone] at hid
          cases hid
      · exact ⟨job.spec.id, by rw [SortedMap.get?_insert, if_pos rfl]⟩
    · intro q job' rest' hemit
      cases hemit
      rw [SortedMap.get?_insert, if_pos rfl]

/-- A poll keeps the tables. -/
theorem poll (h : Tables s) (k : Nat) (worker : Worker) (alive : Bool) :
    Tables (s.poll k worker alive) := by
  unfold State.poll
  split
  · exact h
  · split
    · exact h.setPhase _ _
    · next step rest htake =>
      have htaken := h.onQueue worker.queue fun _ ↦ rest
      cases step with
      | closed => exact htaken.setPhase _ _
      | reportDropped dropped =>
        dsimp only
        split <;> exact htaken.setPhase _ _
      | deliver job =>
        exact (htaken.setPhase k _).keep rfl rfl rfl rfl

/-- A step of a worker keeps the tables. -/
theorem work (h : Tables s) (k : Nat) (alive : Bool) (record : WebhookDelivery) :
    Tables (s.work k alive record) := by
  unfold State.work
  split
  · exact h
  · next worker hworker =>
    split
    · exact h.poll _ _ _
    · split
      · exact (h.onQueue _ _).setPhase _ _
      · exact h.setPhase _ _
    · split
      · exact h.setPhase _ _
      · exact h
    · exact (h.setPhase k .polling).keep rfl rfl rfl rfl
    · exact (h.setPhase k .polling).keep rfl rfl rfl rfl
    · exact h

/-- A step of a call keeps the tables. -/
theorem emitStep (h : Tables s) : Tables s.emitStep := by
  unfold State.emitStep
  split
  · exact h
  · exact h.onEmit (by simp)
  · exact h.onEmit (by simp)
  · exact h.workerFor _ _
  · next q job rest hemit =>
    have hqueue := h.onQueue q fun queue ↦ queue.push job
    exact ⟨hqueue.length_eq, hqueue.worker_queue, hqueue.map_lt, hqueue.map_inj, hqueue.map_onto,
      fun q' job' rest' hother ↦ (by cases hother)⟩
  · exact (h.notifyOne _).onEmit (by simp)

/-- Every step keeps the tables. -/
theorem step (h : Tables s) (op : Op) : Tables (step s op) := by
  cases op with
  | emit event =>
    dsimp only [Webhook.step]
    split
    · split
      · exact h.onEmit (by simp)
      · exact h
    · exact h
  | emitStep => exact h.emitStep
  | reloadEndpoints endpoints => exact h.keep rfl rfl rfl rfl
  | storeEnabled enabled => exact h.keep rfl rfl rfl rfl
  | work k alive record => exact h.work k alive record
  | release =>
    dsimp only [Webhook.step]
    split
    · exact h.keep rfl rfl rfl rfl
    · exact h
  | close q =>
    dsimp only [Webhook.step]
    split
    · exact h
    · exact (h.onQueue q _).notifyOne q

end Tables

/-! ## The lanes after a step -/

section Refinement

variable {s : State} {id : String} {k : Nat} {worker : Worker}

/-- The look of the task of an id is that of its lane. -/
theorem view_poll (h : Tables s) (hlane : (view s id).Sound id) (hid : s.map.get? id = some k)
    (hqueue : worker.queue = k) (alive : Bool) :
    view (s.poll k worker alive) id = (view s id).poll (s.held || alive) := by
  obtain ⟨queue, hget⟩ := h.exists_queue hid
  have hview := view_queue hid hget
  rcases take_cases queue with htake | ⟨dropped, hdropped, htake⟩ |
    ⟨job, jobs, hdropped, hjobs, htake⟩ | ⟨hdropped, hjobs, htake⟩
  · simp only [State.poll, Lane.poll, hqueue, hget, hview, htake]
    rw [view_setPhase (h.onQueue k _) hid, view_onQueue h hid]
  · simp only [State.poll, Lane.poll, hqueue, hget, hview, htake]
    split
    · rw [view_setPhase (h.onQueue k _) hid, view_onQueue h hid]
    · rw [view_setPhase (h.onQueue k _) hid, view_onQueue h hid]
  · have hmine := hlane.jobs_id job (by rw [hview, hjobs]; exact List.mem_cons_self)
    have hstep := view_setPhase (h.onQueue k fun _ ↦ { queue with jobs := jobs }) hid
      (if (s.held || alive) = true then .delivering job else .exited)
    rw [view_onQueue h hid] at hstep
    have hhanded : ofId id (s.handed ++ [job]) = (view s id).handed ++ [job] := by
      rw [ofId_concat, if_pos hmine]
      rfl
    simp only [State.poll, Lane.poll, hqueue, hget, hview, htake, ← hhanded]
    exact congrArg (fun lane : Lane ↦ { lane with handed := ofId id (s.handed ++ [job]) }) hstep
  · simp only [State.poll, Lane.poll, hqueue, hget, hview, htake]
    rw [view_setPhase h hid, ← hview]

/-- So is each step of it. -/
theorem view_work (h : Tables s) (hlane : (view s id).Sound id) (hid : s.map.get? id = some k)
    (hworker : s.workers[k]? = some worker) (alive : Bool) (record : WebhookDelivery) :
    view (s.work k alive record) id = (view s id).work (s.held || alive) := by
  have hphase := view_phase hid hworker
  have hqueue := h.worker_queue k worker hworker
  obtain ⟨queue, hget⟩ := h.exists_queue hid
  have hview := view_queue hid hget
  unfold State.work Lane.work
  simp only [hworker]
  cases hcase : worker.phase with
  | polling =>
    rw [hcase] at hphase
    simp only [hphase]
    exact view_poll h hlane hid hqueue alive
  | idle =>
    rw [hcase] at hphase
    simp only [hphase, hqueue, hget, hview, Option.any_some]
    split
    · rw [view_setPhase (h.onQueue k _) hid, view_onQueue h hid, hview]
    · rw [view_setPhase h hid, ← hview]
  | waiting notified =>
    rw [hcase] at hphase
    simp only [hphase]
    split
    · exact view_setPhase h hid _
    · rfl
  | reporting dropped =>
    rw [hcase] at hphase
    simp only [hphase]
    have hmine := hlane.reporting_id dropped hphase
    have hreported : reportsOf id (s.reported ++ [dropped]) = (view s id).reported ++ [dropped] := by
      rw [reportsOf_concat, if_pos hmine]
      rfl
    have hstep := view_setPhase h hid .polling
    rw [← hreported]
    exact congrArg (fun lane : Lane ↦ { lane with reported := reportsOf id (s.reported ++ [dropped]) })
      hstep
  | delivering job =>
    rw [hcase] at hphase
    simp only [hphase]
    exact view_setPhase h hid .polling
  | exited =>
    rw [hcase] at hphase
    simp only [hphase]

/-- What is in the lane of one id is not in that of another. -/
theorem other_lane (h : Tables s) (hlanes : ∀ id, (view s id).Sound id) (hid : s.map.get? id ≠ some k)
    (hk : k < s.queues.length) :
    (∀ queue, s.queues[k]? = some queue → ∀ job ∈ queue.jobs, job.spec.id ≠ id) ∧
      ∀ worker, s.workers[k]? = some worker → ∀ dropped, worker.phase = .reporting dropped →
        dropped.spec.id ≠ id := by
  obtain ⟨owner, howner⟩ := h.map_onto k hk
  have hne : owner ≠ id := by
    intro hsame
    rw [hsame] at howner
    exact hid howner
  constructor
  · intro queue hqueue job hjob
    rw [(hlanes owner).jobs_id job (by rw [view_queue howner hqueue]; exact hjob)]
    exact hne
  · intro worker hworker dropped hphase
    rw [(hlanes owner).reporting_id dropped ((view_phase howner hworker).trans hphase)]
    exact hne

/-- The look of another task. -/
theorem view_poll_ne (h : Tables s) (hlanes : ∀ id, (view s id).Sound id)
    (hid : s.map.get? id ≠ some k) (hqueue : worker.queue = k) (alive : Bool) :
    view (s.poll k worker alive) id = view s id := by
  cases hget : s.queues[k]? with
  | none => simp only [State.poll, hqueue, hget]
  | some queue =>
    have hk := (List.getElem?_eq_some_iff.mp hget).1
    have hjobs := (other_lane h hlanes hid hk).1 queue hget
    rcases take_cases queue with htake | ⟨dropped, hdropped, htake⟩ |
      ⟨job, jobs, hdropped, hall, htake⟩ | ⟨hdropped, hall, htake⟩
    · simp only [State.poll, hqueue, hget, htake]
      rw [view_setPhase_ne (by exact hid), view_onQueue_ne hid]
    · simp only [State.poll, hqueue, hget, htake]
      split
      · rw [view_setPhase_ne (by exact hid), view_onQueue_ne hid]
      · rw [view_setPhase_ne (by exact hid), view_onQueue_ne hid]
    · have hother := hjobs job (by rw [hall]; exact List.mem_cons_self)
      have hstep := view_setPhase_ne (s := s.onQueue k fun _ ↦ { queue with jobs := jobs }) hid
        (if (s.held || alive) = true then .delivering job else .exited)
      rw [view_onQueue_ne hid] at hstep
      have hhanded : ofId id (s.handed ++ [job]) = (view s id).handed := by
        rw [ofId_concat, if_neg hother]
        rfl
      simp only [State.poll, hqueue, hget, htake]
      refine (congrArg (fun lane : Lane ↦ { lane with handed := ofId id (s.handed ++ [job]) })
        hstep).trans ?_
      rw [hhanded]
    · simp only [State.poll, hqueue, hget, htake]
      exact view_setPhase_ne hid _

private theorem view_work_ne (h : Tables s) (hlanes : ∀ id, (view s id).Sound id)
    (hid : s.map.get? id ≠ some k) (alive : Bool) (record : WebhookDelivery) :
    view (s.work k alive record) id = view s id := by
  cases hworker : s.workers[k]? with
  | none => simp only [State.work, hworker]
  | some worker =>
    have hqueue := h.worker_queue k worker hworker
    have hk : k < s.queues.length := h.length_eq ▸ (List.getElem?_eq_some_iff.mp hworker).1
    simp only [State.work, hworker]
    cases hcase : worker.phase with
    | polling => exact view_poll_ne h hlanes hid hqueue alive
    | idle =>
      dsimp only
      split
      · rw [view_setPhase_ne (by exact hid), hqueue, view_onQueue_ne hid]
      · exact view_setPhase_ne hid _
    | waiting notified =>
      dsimp only
      split
      · exact view_setPhase_ne hid _
      · rfl
    | reporting dropped =>
      have hother := (other_lane h hlanes hid hk).2 worker hworker dropped hcase
      have hreported : reportsOf id (s.reported ++ [dropped]) = (view s id).reported := by
        rw [reportsOf_concat, if_neg hother]
        rfl
      have hstep := view_setPhase_ne hid .polling
      refine (congrArg (fun lane : Lane ↦
        { lane with reported := reportsOf id (s.reported ++ [dropped]) }) hstep).trans ?_
      rw [hreported]
    | delivering job => exact view_setPhase_ne hid .polling
    | exited => rfl

/-- The lane of an id whose queue was made just now is the one of an id without a queue. -/
theorem view_workerFor (h : Tables s) (emit : EmitPhase) (other : String) :
    view { (s.workerFor other).2 with emit := emit } id =
      { view s id with owed := emit.owes ((s.workerFor other).2.map.get? id) } := by
  unfold State.workerFor
  split
  · rfl
  · next hnone =>
    rcases eq_or_ne id other with rfl | hne
    · simp only [view, SortedMap.get?_insert, if_true, hnone, Option.bind_some, Option.bind_none,
        Option.map_none, Option.getD_none, List.getElem?_concat_length, Option.getD_some]
      rw [← h.length_eq, List.getElem?_concat_length]
      rfl
    · simp only [view, SortedMap.get?_insert, hne, if_false]
      cases hid : s.map.get? id with
      | none => rfl
      | some q =>
        have hlt := h.map_lt id q hid
        simp only [Option.bind_some]
        rw [List.getElem?_append_left hlt, List.getElem?_append_left (h.length_eq ▸ hlt)]

/-- `emit` goes on without a queue. -/
theorem view_onEmit (emit : EmitPhase) (hbefore : ∀ queue, s.emit.owes queue = false)
    (hafter : ∀ queue, emit.owes queue = false) : view { s with emit := emit } id = view s id := by
  simp only [view, hbefore, hafter]

/-- A step of `emit` pushes into the lane of the job's id or notifies its task. -/
theorem view_emitStep (h : Tables s) (id : String) :
    (view s id).Moves id s.held (view s.emitStep id) := by
  unfold State.emitStep
  split
  · exact .stays
  · next event hemit =>
    rw [view_onEmit (.targets _) (fun queue ↦ by rw [hemit]; rfl) fun queue ↦ rfl]
    exact .stays
  · next hemit =>
    rw [view_onEmit .returned (fun queue ↦ by rw [hemit]; rfl) fun queue ↦ rfl]
    exact .stays
  · next job rest hemit =>
    rw [view_workerFor h]
    have hsame : { view s id with owed := false } = view s id := by
      simp only [view, hemit, EmitPhase.owes]
    simp only [EmitPhase.owes]
    rw [hsame]
    exact .stays
  · next q job rest hemit =>
    have hjob := h.pushing q job rest hemit
    by_cases hid : s.map.get? id = some q
    · have hsame : id = job.spec.id := h.map_inj id job.spec.id q hid hjob
      have hpush : view { s.onQueue q fun queue ↦ queue.push job with
          emit := .notifying q rest, emitted := s.emitted ++ [job] } id = (view s id).push job := by
        have hqueue := view_onQueue h hid fun queue ↦ queue.push job
        refine (congrArg (fun lane : Lane ↦ { lane with
          owed := (EmitPhase.notifying q rest).owes (s.map.get? id)
          emitted := ofId id (s.emitted ++ [job]) }) hqueue).trans ?_
        rw [ofId_concat, if_pos hsame.symm, hid]
        simp only [EmitPhase.owes, decide_true]
        rfl
      rw [hpush]
      exact .push job hsame.symm
    · have hother : job.spec.id ≠ id := by
        intro hsame
        rw [hsame] at hjob
        exact hid hjob
      have hstay : view { s.onQueue q fun queue ↦ queue.push job with
          emit := .notifying q rest, emitted := s.emitted ++ [job] } id = view s id := by
        have hqueue := view_onQueue_ne hid fun queue ↦ queue.push job
        refine (congrArg (fun lane : Lane ↦ { lane with
          owed := (EmitPhase.notifying q rest).owes (s.map.get? id)
          emitted := ofId id (s.emitted ++ [job]) }) hqueue).trans ?_
        rw [ofId_concat, if_neg hother]
        simp only [EmitPhase.owes, hid, decide_false, view, hemit]
      rw [hstay]
      exact .stays
  · next q rest hemit =>
    by_cases hid : s.map.get? id = some q
    · have hsettle : view { s.notifyOne q with emit := .targets rest } id = (view s id).settle :=
        congrArg (fun lane : Lane ↦ { lane with owed := false }) (view_notifyOne h hid)
      rw [hsettle]
      exact .settle
    · have hstay : view { s.notifyOne q with emit := .targets rest } id = view s id := by
        refine (congrArg (fun lane : Lane ↦ { lane with owed := false })
          (view_notifyOne_ne h hid)).trans ?_
        simp only [view, hemit, EmitPhase.owes, hid, decide_false]
      rw [hstay]
      exact .stays

/-- Each step of the dispatcher is one of the lane of each id. -/
theorem view_step (h : Tables s) (hlanes : ∀ id, (view s id).Sound id) (op : Op) (id : String) :
    (view s id).Moves id s.held (view (step s op) id) := by
  cases op with
  | emit event =>
    simp only [step]
    split
    · next hemit =>
      split
      · rw [view_onEmit (.flagged event) (fun queue ↦ by rw [hemit]; rfl) fun queue ↦ rfl]
        exact .stays
      · exact .stays
    · exact .stays
  | emitStep => exact view_emitStep h id
  | reloadEndpoints endpoints => exact .stays
  | storeEnabled enabled => exact .stays
  | work k alive record =>
    simp only [step]
    by_cases hid : s.map.get? id = some k
    · have hlt : k < s.workers.length := h.length_eq ▸ h.map_lt id k hid
      rw [view_work h (hlanes id) hid (List.getElem?_eq_getElem hlt)]
      exact .work _ fun hheld ↦ by rw [hheld]; rfl
    · rw [view_work_ne h hlanes hid]
      exact .stays
  | release =>
    simp only [step]
    split <;> exact .stays
  | close q =>
    simp only [step]
    split
    · exact .stays
    · next hheld =>
      have htables := h.onQueue q fun queue ↦ { queue with closed := true }
      by_cases hid : s.map.get? id = some q
      · have hclose : view (s.closeQueue q) id = (view s id).close := by
          rw [State.closeQueue, view_notifyOne htables hid, view_onQueue h hid]
          rfl
        rw [hclose]
        exact .close (by simpa using hheld)
      · have hstay : view (s.closeQueue q) id = view s id := by
          rw [State.closeQueue, view_notifyOne_ne htables (by exact hid), view_onQueue_ne hid]
        rw [hstay]
        exact .stays

end Refinement

/-! ## Runs -/

/-- Each lane is sound. -/
structure Sound (s : State) : Prop where
  tables : Tables s
  lanes : ∀ id, (view s id).Sound id

private theorem sound_start : Sound {} := ⟨Tables.empty, Lane.Sound.empty⟩

/-- One step keeps it. -/
theorem Sound.step {s : State} (h : Sound s) (op : Op) : Sound (step s op) :=
  ⟨h.tables.step op, fun id ↦ (h.lanes id).moves (view_step h.tables h.lanes op id)⟩

/-- Every state of a run is sound. -/
theorem sound_run (ops : List Op) : Sound (run step {} ops) :=
  run_preserves (fun _ op h ↦ h.step op) sound_start ops

/-- No count of lost jobs is at its end. -/
def Unsaturated (s : State) : Prop := ∀ id, (view s id).queue.Unsaturated

/-- While the dispatcher is held and the counts have room nothing is lost without a count, and no task
ends. -/
theorem balanced_run {ops : List Op}
    (hops : EveryStep step (fun s _ ↦ s.held = true ∧ Unsaturated s) {} ops) (id : String) :
    (view (run step {} ops) id).Balanced ∧ (view (run step {} ops) id).Alive := by
  have hstep : ∀ s op, Sound s ∧ (∀ id, (view s id).Balanced ∧ (view s id).Alive) →
      s.held = true ∧ Unsaturated s →
      Sound (step s op) ∧ ∀ id, (view (step s op) id).Balanced ∧ (view (step s op) id).Alive := by
    intro s op h hop
    refine ⟨h.1.step op, fun id ↦ ?_⟩
    have hmove := view_step h.1.tables h.1.lanes op id
    rw [hop.1] at hmove
    exact ⟨(h.2 id).1.moves (hop.2 id) hmove, (h.2 id).2.moves hmove⟩
  exact (run_invariant hstep ⟨sound_start, fun _ ↦ ⟨rfl, fun hphase ↦ (by cases hphase), rfl⟩⟩
    hops).2 id

/-- The queue of an id has one task, its own. -/
theorem Sound.one_task {s : State} (h : Sound s) {id : String} {q : Nat}
    (hid : s.map.get? id = some q) :
    ∃ queue worker, s.queues[q]? = some queue ∧ s.workers[q]? = some worker ∧ worker.queue = q ∧
      ∀ k (other : Worker), s.workers[k]? = some other → other.queue = q → k = q := by
  obtain ⟨queue, hqueue⟩ := h.tables.exists_queue hid
  have hlt : q < s.workers.length := h.tables.length_eq ▸ h.tables.map_lt id q hid
  have hworker := List.getElem?_eq_getElem hlt
  refine ⟨queue, _, hqueue, hworker, h.tables.worker_queue q _ hworker, fun k other hother hsame ↦ ?_⟩
  rw [← h.tables.worker_queue k other hother]
  exact hsame

/-- A task with work in its queue is not asleep, nor about to be, once it is notified. -/
theorem Sound.awake {s : State} (h : Sound s) {id : String} {q : Nat} {queue : EndpointQueue}
    {worker : Worker} (hid : s.map.get? id = some q) (hqueue : s.queues[q]? = some queue)
    (hworker : s.workers[q]? = some worker) (hwork : queue.jobs ≠ [] ∨ queue.dropped ≠ none)
    (hquiet : ∀ rest, s.emit ≠ .notifying q rest) :
    worker.phase ≠ .waiting false ∧ (worker.phase = .idle → queue.permit = true) := by
  have howed : (view s id).owed = false := by
    simp only [view, hid]
    cases hemit : s.emit with
    | notifying q' rest =>
      have hne : q ≠ q' := fun hsame ↦ hquiet rest (hsame ▸ hemit)
      simp [EmitPhase.owes, hne]
    | _ => rfl
  have hawake := (h.lanes id).awake howed
  rw [view_phase hid hworker, view_queue hid hqueue] at hawake
  have hbusy : ¬(queue.jobs = [] ∧ queue.dropped = none) := by
    rintro ⟨hjobs, hdropped⟩
    rcases hwork with hwork | hwork
    · exact hwork hjobs
    · exact hwork hdropped
  constructor
  · intro hasleep
    exact hbusy (hawake (.inl hasleep))
  · intro hidle
    by_contra hpermit
    exact hbusy (hawake (.inr ⟨hidle, by simpa using hpermit⟩))

/-- Two deliveries for one id are those of one task. -/
theorem Sound.one_delivery {s : State} (h : Sound s) {k k' : Nat} {worker worker' : Worker}
    {job job' : Job} (hworker : s.workers[k]? = some worker) (hworker' : s.workers[k']? = some worker')
    (hphase : worker.phase = .delivering job) (hphase' : worker'.phase = .delivering job')
    (hid : job.spec.id = job'.spec.id) : k = k' := by
  have howned : ∀ {k : Nat} {worker : Worker} {job : Job}, s.workers[k]? = some worker →
      worker.phase = .delivering job → s.map.get? job.spec.id = some k := by
    intro k worker job hworker hphase
    have hk := h.tables.length_eq ▸ (List.getElem?_eq_some_iff.mp hworker).1
    obtain ⟨owner, howner⟩ := h.tables.map_onto k hk
    rw [(h.lanes owner).delivering_id job ((view_phase howner hworker).trans hphase)]
    exact howner
  have hsame := howned hworker hphase
  rw [hid, howned hworker' hphase'] at hsame
  exact (Option.some.inj hsame).symm

end Engine.Webhook
