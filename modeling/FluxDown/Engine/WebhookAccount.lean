import FluxDown.Engine.WebhookQueue

/-!
# What a run owes to the endpoints

Library `Engine`. The calls of a run tell which jobs are due: those of the endpoints that want the
event, in the table there is when `emit` reads it. The phases of the tasks tell which jobs were given
to a delivery, and the log which reports were written. Every job that is due is put into the queue of
its id or is still in the hands of `emit`, which returns.
-/

namespace Engine.Webhook

open Base

/-! ## The account of a run -/

/-- What the steps of a run tell: whether the dispatcher is held, its table and its flag, the call
that has not yet read the table, the jobs that are due, those that were given to a delivery, and the
reports that were written. -/
structure Account where
  held : Bool := true
  endpoints : List EndpointSpec := []
  anyEnabled : Bool := false
  asked : Option WebhookEvent := none
  due : List Job := []
  delivered : List Job := []
  written : List DroppedJobs := []

/-- The job that a task delivers. -/
def delivery (s : State) (k : Nat) : Option Job :=
  match (s.workers[k]?).map Worker.phase with
  | some (.delivering job) => some job
  | _ => none

/-- The report that a task writes in a step. -/
def writtenReport (s s' : State) (k : Nat) : Option DroppedJobs :=
  match (s.workers[k]?).map Worker.phase with
  | some (.reporting dropped) =>
    if s'.log.getLast? = some (droppedRecord dropped) then some dropped else none
  | _ => none

/-- The jobs of an event. -/
def jobsFor (endpoints : List EndpointSpec) (event : WebhookEvent) : List Job :=
  (endpoints.filter fun spec ↦ spec.wants event).map fun spec ↦ { spec := spec, event := event }

/-- What a step from `s` to `s'` tells. -/
def Account.next (account : Account) (s s' : State) : Op → Account
  | .emit event =>
    if account.held && account.anyEnabled then { account with asked := some event } else account
  | .emitStep =>
    match account.asked with
    | some event =>
      { account with asked := none, due := account.due ++ jobsFor account.endpoints event }
    | none => account
  | .reloadEndpoints endpoints => { account with endpoints := endpoints }
  | .storeEnabled enabled => { account with anyEnabled := enabled }
  | .work k _ _ =>
    { account with
      delivered := account.delivered ++ (delivery s' k).toList
      written := account.written ++ (writtenReport s s' k).toList }
  | .release => { account with held := false }
  | .close _ => account

/-- What a run tells. -/
def Account.after (account : Account) (s : State) : List Op → Account
  | [] => account
  | op :: ops => (account.next s (step s op) op).after (step s op) ops

/-- Its callers call `emit` one after the other, and do not give up the dispatcher during a call. -/
def Serialised (s : State) : Op → Prop
  | .emit _ => s.emit = .returned
  | .release => s.emit = .returned
  | _ => True

/-- The jobs in the hands of `emit`. -/
def EmitPhase.pending : EmitPhase → List Job
  | returned => []
  | flagged _ => []
  | targets jobs => jobs
  | pushing _ job rest => job :: rest
  | notifying _ rest => rest

/-- The call that has not yet read the table. -/
def EmitPhase.asked : EmitPhase → Option WebhookEvent
  | flagged event => some event
  | _ => none

/-! ## What a task's step tells -/

/-- The hands of a task's step: what it takes from its queue, and what it writes. -/
structure Tells (s s' : State) (k : Nat) (jobs : List Job) : Prop where
  handed : s'.handed = s.handed ++ jobs
  delivered : (delivery s' k).toList.Sublist jobs
  all : s.held = true → (delivery s' k).toList = jobs
  written : s'.reported = s.reported ++ (writtenReport s s' k).toList

section Tasks

variable {s : State} {k : Nat} {worker : Worker}

private theorem delivery_of_phase (s' : State) {phase : WorkerPhase}
    (hphase : (s'.workers[k]?).map Worker.phase = some phase)
    (hnone : ∀ job, phase ≠ .delivering job) : delivery s' k = none := by
  unfold delivery
  rw [hphase]
  split
  · next job hsome => exact absurd (Option.some.inj hsome) (hnone job)
  · rfl

private theorem writtenReport_of_phase (s' : State) {phase : WorkerPhase}
    (hphase : (s.workers[k]?).map Worker.phase = some phase)
    (hnone : ∀ dropped, phase ≠ .reporting dropped) : writtenReport s s' k = none := by
  unfold writtenReport
  rw [hphase]
  split
  · next dropped hsome => exact absurd (Option.some.inj hsome) (hnone dropped)
  · rfl

private theorem phase_setPhase (hworker : s.workers[k]? = some worker) (phase : WorkerPhase) :
    ((s.setPhase k phase).workers[k]?).map Worker.phase = some phase := by
  simp only [State.setPhase, List.getElem?_modify_eq, hworker]
  rfl

/-- A step that hands out nothing and writes nothing. -/
theorem tells_nothing {s' : State} {phase phase' : WorkerPhase}
    (hphase : (s.workers[k]?).map Worker.phase = some phase)
    (hphase' : (s'.workers[k]?).map Worker.phase = some phase')
    (hwrites : ∀ dropped, phase ≠ .reporting dropped)
    (hdelivers : ∀ job, phase' ≠ .delivering job) (hhanded : s'.handed = s.handed)
    (hreported : s'.reported = s.reported) : Tells s s' k [] := by
  have hdelivery := delivery_of_phase s' hphase' hdelivers
  have hreport := writtenReport_of_phase s' hphase hwrites
  refine ⟨?_, ?_, fun _ ↦ ?_, ?_⟩
  · rw [hhanded, List.append_nil]
  · rw [hdelivery]
    exact List.Sublist.refl _
  · rw [hdelivery]
    rfl
  · rw [hreported, hreport]
    exact (List.append_nil _).symm

/-- A look at the queue hands out the job that the task then delivers; where the task finds the
dispatcher given up, it lets the job go. -/
theorem poll_tells (hworker : s.workers[k]? = some worker)
    (hpolling : worker.phase = .polling) (alive : Bool) :
    ∃ jobs, Tells s (s.poll k worker alive) k jobs := by
  have hphase : (s.workers[k]?).map Worker.phase = some .polling := by
    rw [hworker, Option.map_some, hpolling]
  have hwrites : ∀ dropped, WorkerPhase.polling ≠ .reporting dropped := by simp
  unfold State.poll
  split
  · exact ⟨[], tells_nothing hphase hphase hwrites (by simp) rfl rfl⟩
  · next queue _ =>
    split
    · exact ⟨[], tells_nothing hphase (phase_setPhase hworker .idle) hwrites (by simp) rfl rfl⟩
    · next step rest _ =>
      have htaken : (s.onQueue worker.queue fun _ ↦ rest).workers[k]? = some worker := hworker
      cases step with
      | closed =>
        exact ⟨[], tells_nothing hphase (phase_setPhase htaken .exited) hwrites (by simp) rfl rfl⟩
      | reportDropped dropped =>
        dsimp only
        split
        · exact ⟨[], tells_nothing hphase (phase_setPhase htaken _) hwrites (by simp) rfl rfl⟩
        · exact ⟨[], tells_nothing hphase (phase_setPhase htaken _) hwrites (by simp) rfl rfl⟩
      | deliver job =>
        have hnext := phase_setPhase htaken
          (if (s.held || alive) = true then .delivering job else .exited)
        have hreport := writtenReport_of_phase
          { (s.onQueue worker.queue fun _ ↦ rest).setPhase k
              (if (s.held || alive) = true then .delivering job else .exited) with
            handed := s.handed ++ [job] } hphase hwrites
        refine ⟨[job], rfl, ?_, fun hheld ↦ ?_, ?_⟩
        · unfold delivery
          dsimp only
          rw [hnext]
          cases (s.held || alive) with
          | true => exact List.Sublist.refl _
          | false => exact List.nil_sublist _
        · unfold delivery
          dsimp only
          rw [hnext, hheld]
          rfl
        · rw [hreport]
          exact (List.append_nil _).symm

private theorem getLast?_pushLog (s : State) (record : WebhookDelivery) :
    (s.pushLog record).log.getLast? = some record := by
  simp only [State.pushLog, List.getLast?_append, List.getLast?_singleton, Option.some_or]

private theorem work_tells (s : State) (k : Nat) (alive : Bool) (record : WebhookDelivery) :
    ∃ jobs, Tells s (s.work k alive record) k jobs := by
  unfold State.work
  split
  · next hnone =>
    refine ⟨[], (List.append_nil _).symm, ?_, fun _ ↦ ?_, ?_⟩
    · simp [delivery, hnone]
    · simp [delivery, hnone]
    · simp [writtenReport, hnone]
  · next worker hworker =>
    have hphase : (s.workers[k]?).map Worker.phase = some worker.phase := by rw [hworker]; rfl
    split
    · next hpolling => exact poll_tells hworker hpolling alive
    · next hidle =>
      rw [hidle] at hphase
      split
      · have htaken : (s.onQueue worker.queue fun queue ↦
          { queue with permit := false }).workers[k]? = some worker := hworker
        exact ⟨[], tells_nothing hphase (phase_setPhase htaken _) (by simp) (by simp) rfl rfl⟩
      · exact ⟨[], tells_nothing hphase (phase_setPhase hworker _) (by simp) (by simp) rfl rfl⟩
    · next notified hwaiting =>
      rw [hwaiting] at hphase
      split
      · exact ⟨[], tells_nothing hphase (phase_setPhase hworker _) (by simp) (by simp) rfl rfl⟩
      · exact ⟨[], tells_nothing hphase hphase (by simp) (by simp) rfl rfl⟩
    · next dropped hreporting =>
      rw [hreporting] at hphase
      have hlogged : (s.pushLog (droppedRecord dropped)).workers[k]? = some worker := hworker
      have hdelivery := delivery_of_phase
        { (s.pushLog (droppedRecord dropped)).setPhase k .polling with
          reported := s.reported ++ [dropped] } (phase_setPhase hlogged .polling) (by simp)
      refine ⟨[], (List.append_nil _).symm, ?_, fun _ ↦ ?_, ?_⟩
      · rw [hdelivery]
        exact List.Sublist.refl _
      · rw [hdelivery]
        rfl
      · have hlast : ((s.pushLog (droppedRecord dropped)).setPhase k .polling).log.getLast? =
            some (droppedRecord dropped) := getLast?_pushLog s _
        unfold writtenReport
        dsimp only
        rw [hphase, hlast]
        simp only [if_true, Option.toList_some]
    · next job hdelivering =>
      rw [hdelivering] at hphase
      have hlogged : (s.pushLog record).workers[k]? = some worker := hworker
      exact ⟨[], tells_nothing hphase (phase_setPhase hlogged _) (by simp) (by simp) rfl rfl⟩
    · next hexited =>
      rw [hexited] at hphase
      exact ⟨[], tells_nothing hphase hphase (by simp) (by simp) rfl rfl⟩

end Tasks

/-! ## What a step leaves alone -/

/-- The tasks do not touch what the calls read and write. -/
structure SameCalls (s s' : State) : Prop where
  held : s'.held = s.held
  endpoints : s'.endpoints = s.endpoints
  anyEnabled : s'.anyEnabled = s.anyEnabled
  emit : s'.emit = s.emit
  emitted : s'.emitted = s.emitted

/-- The calls do not touch what the tasks hand out and write. -/
structure SameTasks (s s' : State) : Prop where
  handed : s'.handed = s.handed
  reported : s'.reported = s.reported

private theorem SameCalls.refl (s : State) : SameCalls s s := ⟨rfl, rfl, rfl, rfl, rfl⟩

private theorem sameCalls_notifyOne (s : State) (q : Nat) : SameCalls s (s.notifyOne q) := by
  unfold State.notifyOne
  split
  · exact ⟨rfl, rfl, rfl, rfl, rfl⟩
  · exact ⟨rfl, rfl, rfl, rfl, rfl⟩

private theorem sameTasks_notifyOne (s : State) (q : Nat) : SameTasks s (s.notifyOne q) := by
  unfold State.notifyOne
  split
  · exact ⟨rfl, rfl⟩
  · exact ⟨rfl, rfl⟩

private theorem sameCalls_work (s : State) (k : Nat) (alive : Bool) (record : WebhookDelivery) :
    SameCalls s (s.work k alive record) := by
  unfold State.work
  split
  · exact .refl s
  · next worker _ =>
    split
    · unfold State.poll
      split
      · exact .refl s
      · split
        · exact ⟨rfl, rfl, rfl, rfl, rfl⟩
        · next step rest _ =>
          cases step with
          | closed => exact ⟨rfl, rfl, rfl, rfl, rfl⟩
          | reportDropped dropped =>
            dsimp only
            split
            · exact ⟨rfl, rfl, rfl, rfl, rfl⟩
            · exact ⟨rfl, rfl, rfl, rfl, rfl⟩
          | deliver job => exact ⟨rfl, rfl, rfl, rfl, rfl⟩
    · split
      · exact ⟨rfl, rfl, rfl, rfl, rfl⟩
      · exact ⟨rfl, rfl, rfl, rfl, rfl⟩
    · split
      · exact ⟨rfl, rfl, rfl, rfl, rfl⟩
      · exact .refl s
    · exact ⟨rfl, rfl, rfl, rfl, rfl⟩
    · exact ⟨rfl, rfl, rfl, rfl, rfl⟩
    · exact .refl s

private theorem workerFor_frame (s : State) (id : String) :
    SameCalls s (s.workerFor id).2 ∧ SameTasks s (s.workerFor id).2 := by
  unfold State.workerFor
  split
  · exact ⟨.refl s, rfl, rfl⟩
  · exact ⟨⟨rfl, rfl, rfl, rfl, rfl⟩, rfl, rfl⟩

/-! ## The account of the calls -/

/-- The dispatcher is as the calls left it; what is due was put into a queue or is in the hands of
`emit`. -/
structure Owes (s : State) (account : Account) : Prop where
  held : account.held = s.held
  endpoints : account.endpoints = s.endpoints
  anyEnabled : account.anyEnabled = s.anyEnabled
  asked : account.asked = s.emit.asked
  due : account.due = s.emitted ++ s.emit.pending

/-- What was given to a delivery was handed out, all of it while the dispatcher is held; and what was
reported was written. -/
structure Gave (s : State) (account : Account) : Prop where
  delivered : account.delivered.Sublist s.handed
  written : account.written = s.reported

section Step

variable {s : State} {account : Account}

private theorem Owes.emitStep (h : Owes s account) :
    Owes s.emitStep (account.next s s.emitStep .emitStep) := by
  have hasked := h.asked
  have hdue := h.due
  unfold State.emitStep
  split
  · next hemit =>
    rw [hemit] at hasked
    simp only [Account.next, hasked, EmitPhase.asked]
    exact h
  · next event hemit =>
    rw [hemit] at hasked hdue
    simp only [Account.next, hasked, EmitPhase.asked]
    refine ⟨h.held, h.endpoints, h.anyEnabled, rfl, ?_⟩
    simp only [hdue, EmitPhase.pending, List.append_nil, h.endpoints, jobsFor]
  · next hemit =>
    rw [hemit] at hasked hdue
    simp only [Account.next, hasked, EmitPhase.asked]
    exact ⟨h.held, h.endpoints, h.anyEnabled, hasked, hdue⟩
  · next job rest hemit =>
    rw [hemit] at hasked hdue
    obtain ⟨hframe, -⟩ := workerFor_frame s job.spec.id
    simp only [Account.next, hasked, EmitPhase.asked]
    refine ⟨h.held.trans hframe.held.symm, h.endpoints.trans hframe.endpoints.symm,
      h.anyEnabled.trans hframe.anyEnabled.symm, hasked, ?_⟩
    rw [hdue, hframe.emitted]
    rfl
  · next q job rest hemit =>
    rw [hemit] at hasked hdue
    simp only [Account.next, hasked, EmitPhase.asked]
    refine ⟨h.held, h.endpoints, h.anyEnabled, hasked, ?_⟩
    rw [hdue]
    simp only [EmitPhase.pending, List.append_assoc, List.singleton_append]
  · next q rest hemit =>
    rw [hemit] at hasked hdue
    have hframe := sameCalls_notifyOne s q
    simp only [Account.next, hasked, EmitPhase.asked]
    refine ⟨h.held.trans hframe.held.symm, h.endpoints.trans hframe.endpoints.symm,
      h.anyEnabled.trans hframe.anyEnabled.symm, hasked, ?_⟩
    rw [hdue, hframe.emitted]
    rfl

private theorem Owes.of_same (h : Owes s account) {s' : State} (hsame : SameCalls s s')
    {account' : Account} (haccount : account'.held = account.held ∧
      account'.endpoints = account.endpoints ∧ account'.anyEnabled = account.anyEnabled ∧
        account'.asked = account.asked ∧ account'.due = account.due) : Owes s' account' := by
  obtain ⟨hheld, hendpoints, henabled, hasked, hdue⟩ := haccount
  refine ⟨?_, ?_, ?_, ?_, ?_⟩
  · rw [hheld, hsame.held, h.held]
  · rw [hendpoints, hsame.endpoints, h.endpoints]
  · rw [henabled, hsame.anyEnabled, h.anyEnabled]
  · rw [hasked, hsame.emit, h.asked]
  · rw [hdue, hsame.emitted, hsame.emit, h.due]

/-- One step, by callers that wait for each other. -/
theorem Owes.step (h : Owes s account) {op : Op} (hserial : Serialised s op) :
    Owes (step s op) (account.next s (step s op) op) := by
  cases op with
  | emit event =>
    have hemit : s.emit = .returned := hserial
    simp only [Webhook.step, hemit, Account.next, h.held, h.anyEnabled]
    split
    · refine ⟨rfl, h.endpoints, rfl, rfl, ?_⟩
      rw [h.due, hemit]
      rfl
    · exact h
  | emitStep => exact h.emitStep
  | reloadEndpoints endpoints => exact ⟨h.held, rfl, h.anyEnabled, h.asked, h.due⟩
  | storeEnabled enabled => exact ⟨h.held, h.endpoints, rfl, h.asked, h.due⟩
  | work k alive record =>
    exact h.of_same (sameCalls_work s k alive record) ⟨rfl, rfl, rfl, rfl, rfl⟩
  | release =>
    have hemit : s.emit = .returned := hserial
    simp only [Webhook.step, hemit, Account.next]
    exact ⟨rfl, h.endpoints, h.anyEnabled, h.asked.trans (by rw [hemit]), by rw [h.due, hemit]⟩
  | close q =>
    dsimp only [Webhook.step]
    split
    · exact h
    · have hframe := sameCalls_notifyOne
        (s.onQueue q fun queue ↦ { queue with closed := true }) q
      exact h.of_same ⟨hframe.held, hframe.endpoints, hframe.anyEnabled, hframe.emit,
        hframe.emitted⟩ ⟨rfl, rfl, rfl, rfl, rfl⟩

private theorem sameTasks_emitStep (s : State) : SameTasks s s.emitStep := by
  unfold State.emitStep
  split
  · exact ⟨rfl, rfl⟩
  · exact ⟨rfl, rfl⟩
  · exact ⟨rfl, rfl⟩
  · next job rest _ =>
    obtain ⟨-, hframe⟩ := workerFor_frame s job.spec.id
    exact ⟨hframe.handed, hframe.reported⟩
  · exact ⟨rfl, rfl⟩
  · next q rest _ =>
    have hframe := sameTasks_notifyOne s q
    exact ⟨hframe.handed, hframe.reported⟩

/-- Only a task's step hands out and writes. -/
theorem sameTasks_step (s : State) {op : Op}
    (hop : ∀ k alive record, op ≠ .work k alive record) : SameTasks s (step s op) := by
  cases op with
  | emit event =>
    dsimp only [Webhook.step]
    split
    · split
      · exact ⟨rfl, rfl⟩
      · exact ⟨rfl, rfl⟩
    · exact ⟨rfl, rfl⟩
  | emitStep => exact sameTasks_emitStep s
  | reloadEndpoints endpoints => exact ⟨rfl, rfl⟩
  | storeEnabled enabled => exact ⟨rfl, rfl⟩
  | work k alive record => exact absurd rfl (hop k alive record)
  | release =>
    dsimp only [Webhook.step]
    split
    · exact ⟨rfl, rfl⟩
    · exact ⟨rfl, rfl⟩
  | close q =>
    dsimp only [Webhook.step]
    split
    · exact ⟨rfl, rfl⟩
    · have hframe := sameTasks_notifyOne (s.onQueue q fun queue ↦ { queue with closed := true }) q
      exact ⟨hframe.handed, hframe.reported⟩

private theorem next_of_ne_work (account : Account) (s s' : State) {op : Op}
    (hop : ∀ k alive record, op ≠ .work k alive record) :
    (account.next s s' op).delivered = account.delivered ∧
      (account.next s s' op).written = account.written := by
  cases op with
  | emit event =>
    dsimp only [Account.next]
    split
    · exact ⟨rfl, rfl⟩
    · exact ⟨rfl, rfl⟩
  | emitStep =>
    dsimp only [Account.next]
    split
    · exact ⟨rfl, rfl⟩
    · exact ⟨rfl, rfl⟩
  | work k alive record => exact absurd rfl (hop k alive record)
  | reloadEndpoints _ => exact ⟨rfl, rfl⟩
  | storeEnabled _ => exact ⟨rfl, rfl⟩
  | release => exact ⟨rfl, rfl⟩
  | close _ => exact ⟨rfl, rfl⟩

/-- One step; while the dispatcher is held, what is handed out is delivered. -/
theorem Gave.step (h : Gave s account) (op : Op) :
    Gave (step s op) (account.next s (step s op) op) ∧
      (s.held = true → account.delivered = s.handed →
        (account.next s (step s op) op).delivered = (step s op).handed) := by
  by_cases hop : ∃ k alive record, op = .work k alive record
  · obtain ⟨k, alive, record, rfl⟩ := hop
    obtain ⟨jobs, htells⟩ := work_tells s k alive record
    refine ⟨⟨?_, ?_⟩, fun hheld hall ↦ ?_⟩
    · change (account.delivered ++ _).Sublist (s.work k alive record).handed
      rw [htells.handed]
      exact h.delivered.append htells.delivered
    · change account.written ++ _ = (s.work k alive record).reported
      rw [htells.written, h.written]
      rfl
    · change account.delivered ++ (delivery (s.work k alive record) k).toList =
        (s.work k alive record).handed
      rw [htells.handed, hall, htells.all hheld]
  · push Not at hop
    have hsame := sameTasks_step s hop
    obtain ⟨hdelivered, hwritten⟩ := next_of_ne_work account s (Webhook.step s op) hop
    refine ⟨⟨?_, ?_⟩, fun _ hall ↦ ?_⟩
    · rw [hdelivered, hsame.handed]
      exact h.delivered
    · rw [hwritten, hsame.reported]
      exact h.written
    · rw [hdelivered, hsame.handed]
      exact hall

end Step

/-! ## Runs -/

/-- What each step keeps of a state and its account holds after a run. -/
theorem after_invariant (Inv : State → Account → Prop) (cond : State → Op → Prop)
    (hstep : ∀ s account op, Inv s account → cond s op →
      Inv (step s op) (account.next s (step s op) op)) (ops : List Op) :
    ∀ {s : State} {account : Account}, Inv s account → EveryStep step cond s ops →
      Inv (run step s ops) (account.after s ops) := by
  induction ops with
  | nil => exact fun h _ ↦ h
  | cons op ops ih =>
    intro s account h hops
    exact ih (hstep s account op h hops.1) hops.2

/-- The measure of a call. -/
private def EmitPhase.steps (endpoints : List EndpointSpec) : EmitPhase → Nat
  | returned => 0
  | flagged event => 3 * (jobsFor endpoints event).length + 2
  | targets jobs => 3 * jobs.length + 1
  | pushing _ _ rest => 3 * rest.length + 3
  | notifying _ rest => 3 * rest.length + 2

private theorem emitStep_steps {s : State} (h : s.emit ≠ .returned) :
    s.emitStep.emit.steps s.emitStep.endpoints < s.emit.steps s.endpoints := by
  unfold State.emitStep
  split
  · next hemit => exact absurd hemit h
  · next event hemit =>
    simp only [hemit, EmitPhase.steps, jobsFor]
    omega
  · next hemit =>
    simp only [hemit, EmitPhase.steps]
    omega
  · next job rest hemit =>
    simp only [hemit, EmitPhase.steps, List.length_cons]
    omega
  · next q job rest hemit =>
    simp only [hemit, EmitPhase.steps]
    omega
  · next q rest hemit =>
    simp only [hemit, EmitPhase.steps]
    omega

/-- A call of `emit` returns. -/
theorem emit_returns (s : State) :
    ∃ n, (run step s (List.replicate n .emitStep)).emit = .returned := by
  generalize hsteps : s.emit.steps s.endpoints = steps
  induction steps using Nat.strong_induction_on generalizing s with
  | h steps ih =>
    by_cases hemit : s.emit = .returned
    · exact ⟨0, hemit⟩
    · have hless := emitStep_steps hemit
      obtain ⟨n, hn⟩ := ih _ (hsteps ▸ hless) s.emitStep rfl
      exact ⟨n + 1, hn⟩

/-- An endpoint that wants completed tasks. -/
def sampleEndpoint : EndpointSpec :=
  ⟨"a", "", "ntfy", "https://host", true, ["task.completed"], ""⟩

/-- The table is stored, a task is completed, its job is delivered, and a second one is completed. -/
def sampleOps : List Op :=
  [.reloadEndpoints [sampleEndpoint], .storeEnabled true, .emit ⟨.taskCompleted, ""⟩, .emitStep,
    .emitStep, .emitStep, .emitStep, .emitStep, .work 0 true ⟨"", "a", "", 1, true, ""⟩,
    .emit ⟨.taskCompleted, "q"⟩, .emitStep, .work 0 true ⟨"", "a", "", 1, true, ""⟩, .emitStep,
    .emitStep]

end Engine.Webhook
