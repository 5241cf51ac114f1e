import FluxDown.Engine.Webhook

/-!
# The lane of an endpoint

Library `Engine`. For one endpoint id the dispatcher is a lane: a queue, a task, and whether the task
is still to be notified. Jobs keep their order in it, none is lost without a count, and its task does
not sleep over work.
-/

namespace Engine.Webhook

open Base

/-! ## Lanes -/

/-- The part of the dispatcher that one id has. -/
structure Lane where
  queue : EndpointQueue := {}
  phase : WorkerPhase := .polling
  owed : Bool := false
  emitted : List Job := []
  handed : List Job := []
  reported : List DroppedJobs := []

/-- Lost jobs of a report that is on its way to the log. -/
def WorkerPhase.unlogged : WorkerPhase → Nat
  | reporting dropped => dropped.count
  | _ => 0

/-- Lost jobs that a queue has counted. -/
def EndpointQueue.lost (queue : EndpointQueue) : Nat := (queue.dropped.map DroppedJobs.count).getD 0

namespace Lane

variable (lane : Lane)

/-- A job is put into the queue. -/
def push (job : Job) : Lane :=
  { lane with queue := lane.queue.push job, owed := true, emitted := lane.emitted ++ [job] }

/-- The task is notified. -/
def notify : Lane :=
  if lane.phase = .waiting false then { lane with phase := .waiting true }
  else { lane with queue := { lane.queue with permit := true } }

/-- The notification that a push owes. -/
def settle : Lane := { lane.notify with owed := false }

/-- The queue is closed. -/
def close : Lane := { lane with queue := { lane.queue with closed := true } }.notify

/-- Closing tells a task that sleeps and leaves what is owed. -/
theorem close_eq :
    lane.close =
      { ({ lane with queue := { lane.queue with closed := true } } : Lane).notify with
        owed := lane.owed } := by
  unfold Lane.close Lane.notify
  split <;> rfl

/-- The task looks at its queue. -/
def poll (found : Bool) : Lane :=
  match lane.queue.take with
  | (none, _) => { lane with phase := .idle }
  | (some .closed, rest) => { lane with queue := rest, phase := .exited }
  | (some (.reportDropped dropped), rest) =>
    { lane with queue := rest, phase := if found then .reporting dropped else .exited }
  | (some (.deliver job), rest) =>
    { lane with
      queue := rest
      phase := if found then .delivering job else .exited
      handed := lane.handed ++ [job] }

/-- The task goes on. -/
def work (found : Bool) : Lane :=
  match lane.phase with
  | .polling => lane.poll found
  | .idle =>
    if lane.queue.permit then { lane with queue := { lane.queue with permit := false }, phase := .polling }
    else { lane with phase := .waiting false }
  | .waiting notified => if notified then { lane with phase := .polling } else lane
  | .reporting dropped => { lane with phase := .polling, reported := lane.reported ++ [dropped] }
  | .delivering _ => { lane with phase := .polling }
  | .exited => lane

end Lane

/-- Steps of the lane of an id; while the dispatcher is held a task finds it. -/
inductive Lane.Moves (id : String) (held : Bool) (lane : Lane) : Lane → Prop
  | stays : Moves id held lane lane
  | push (job : Job) (hid : job.spec.id = id) : Moves id held lane (lane.push job)
  | settle : Moves id held lane lane.settle
  | close (hheld : held = false) : Moves id held lane lane.close
  | work (found : Bool) (hfound : held = true → found = true) : Moves id held lane (lane.work found)

/-! ## What holds of a lane -/

section Queue

variable {queue : EndpointQueue} {job : Job}

/-- A push into a queue that is not full. -/
theorem push_of_lt (h : queue.jobs.length < maxQueuedJobsPerEndpoint) :
    queue.push job = { queue with jobs := queue.jobs ++ [job] } := by
  unfold EndpointQueue.push
  split
  · rw [if_neg (Nat.not_le_of_lt h)]
  · next hnil => simp [hnil]

/-- A push into a full queue. -/
theorem push_of_full {old : Job} {rest : List Job} (hjobs : queue.jobs = old :: rest)
    (h : maxQueuedJobsPerEndpoint ≤ queue.jobs.length) :
    queue.push job =
      { queue with dropped := some (DroppedJobs.add queue.dropped old), jobs := rest ++ [job] } := by
  unfold EndpointQueue.push
  simp only [hjobs]
  rw [if_pos (hjobs ▸ h)]

/-- Either way. -/
theorem push_cases (queue : EndpointQueue) (job : Job) :
    (queue.jobs.length < maxQueuedJobsPerEndpoint ∧
      queue.push job = { queue with jobs := queue.jobs ++ [job] }) ∨
    ∃ old rest, queue.jobs = old :: rest ∧ maxQueuedJobsPerEndpoint ≤ queue.jobs.length ∧
      queue.push job =
        { queue with dropped := some (DroppedJobs.add queue.dropped old), jobs := rest ++ [job] } := by
  rcases Nat.lt_or_ge queue.jobs.length maxQueuedJobsPerEndpoint with hlt | hge
  · exact .inl ⟨hlt, push_of_lt hlt⟩
  · right
    cases hjobs : queue.jobs with
    | nil =>
      rw [hjobs] at hge
      cases hge
    | cons old rest => exact ⟨old, rest, rfl, hjobs ▸ hge, push_of_full hjobs hge⟩

end Queue

/-- What is in the lane of an id is the id's, jobs come in order, the queue is bounded, and a task that
sleeps or is about to has nothing to do, unless it is to be notified. -/
structure Lane.Sound (id : String) (lane : Lane) : Prop where
  bounded : lane.queue.jobs.length ≤ maxQueuedJobsPerEndpoint
  jobs_id : ∀ job ∈ lane.queue.jobs, job.spec.id = id
  dropped_id : ∀ dropped, lane.queue.dropped = some dropped → dropped.spec.id = id
  reporting_id : ∀ dropped, lane.phase = .reporting dropped → dropped.spec.id = id
  delivering_id : ∀ job, lane.phase = .delivering job → job.spec.id = id
  order : (lane.handed ++ lane.queue.jobs).Sublist lane.emitted
  awake : lane.owed = false →
    lane.phase = .waiting false ∨ lane.phase = .idle ∧ lane.queue.permit = false →
    lane.queue.jobs = [] ∧ lane.queue.dropped = none

namespace Lane.Sound

variable {id : String} {lane : Lane}

/-- An empty lane is sound. -/
theorem empty (id : String) : Lane.Sound id {} where
  bounded := Nat.zero_le _
  jobs_id job hjob := by cases hjob
  dropped_id dropped hdropped := by cases hdropped
  reporting_id dropped hphase := by cases hphase
  delivering_id job hphase := by cases hphase
  order := List.Sublist.refl _
  awake _ _ := ⟨rfl, rfl⟩

/-- A pushed job keeps the lane sound. -/
theorem push (h : lane.Sound id) {job : Job} (hid : job.spec.id = id) : (lane.push job).Sound id := by
  rcases push_cases lane.queue job with ⟨hlt, hpush⟩ | ⟨old, rest, hjobs, -, hpush⟩
  · refine ⟨?_, ?_, ?_, h.reporting_id, h.delivering_id, ?_, fun howed ↦ (by cases howed)⟩
    · simp only [Lane.push, hpush, List.length_append, List.length_singleton]
      exact hlt
    · intro other hother
      simp only [Lane.push, hpush, List.mem_append, List.mem_singleton] at hother
      rcases hother with hother | rfl
      · exact h.jobs_id other hother
      · exact hid
    · simp only [Lane.push, hpush]
      exact h.dropped_id
    · simp only [Lane.push, hpush, ← List.append_assoc]
      exact h.order.append (List.Sublist.refl _)
  · have hbounded := h.bounded
    have horder := h.order
    have hids := h.jobs_id
    rw [hjobs] at hbounded horder hids
    refine ⟨?_, ?_, ?_, h.reporting_id, h.delivering_id, ?_, fun howed ↦ (by cases howed)⟩
    · simp only [Lane.push, hpush, List.length_append, List.length_singleton]
      exact hbounded
    · intro other hother
      simp only [Lane.push, hpush, List.mem_append, List.mem_singleton] at hother
      rcases hother with hother | rfl
      · exact hids other (List.mem_cons_of_mem _ hother)
      · exact hid
    · intro dropped hdropped
      simp only [Lane.push, hpush, Option.some.injEq] at hdropped
      rw [← hdropped]
      exact hids old List.mem_cons_self
    · simp only [Lane.push, hpush, ← List.append_assoc]
      have hless : (lane.handed ++ rest).Sublist (lane.handed ++ old :: rest) :=
        (List.Sublist.refl _).append (List.sublist_cons_self old rest)
      exact (hless.trans horder).append (List.Sublist.refl _)

/-- A notification keeps the lane sound. -/
theorem notify (h : lane.Sound id) {owed : Bool} : ({ lane.notify with owed := owed } : Lane).Sound id := by
  unfold Lane.notify
  split
  · next hphase =>
    exact ⟨h.bounded, h.jobs_id, h.dropped_id, fun _ hother ↦ (by cases hother),
      fun _ hother ↦ (by cases hother), h.order, fun _ hasleep ↦ (by simp at hasleep)⟩
  · next hphase =>
    refine ⟨h.bounded, h.jobs_id, h.dropped_id, h.reporting_id, h.delivering_id, h.order, ?_⟩
    intro _ hasleep
    simp [hphase] at hasleep

/-- A worker that settles keeps the lane sound. -/
theorem settle (h : lane.Sound id) : lane.settle.Sound id := h.notify

/-- Closing keeps the lane sound. -/
theorem close (h : lane.Sound id) : lane.close.Sound id := by
  have hclosed : ({ lane with queue := { lane.queue with closed := true } } : Lane).Sound id :=
    ⟨h.bounded, h.jobs_id, h.dropped_id, h.reporting_id, h.delivering_id, h.order, h.awake⟩
  rw [lane.close_eq]
  exact hclosed.notify

/-- A task that is neither asleep nor about to be. -/
theorem busy (h : lane.Sound id) {phase : WorkerPhase}
    (hasleep : phase ≠ .waiting false ∧ phase ≠ .idle)
    (hreporting : ∀ dropped, phase ≠ .reporting dropped) (hdelivering : ∀ job, phase ≠ .delivering job) :
    ({ lane with phase := phase } : Lane).Sound id := by
  refine ⟨h.bounded, h.jobs_id, h.dropped_id, fun dropped hphase ↦ absurd hphase (hreporting dropped),
    fun job hphase ↦ absurd hphase (hdelivering job), h.order, ?_⟩
  intro _ hphase
  rcases hphase with hphase | ⟨hphase, -⟩
  · exact absurd hphase hasleep.1
  · exact absurd hphase hasleep.2

end Lane.Sound

/-- What a look at a queue finds. -/
theorem take_cases (queue : EndpointQueue) :
    (queue.take = (some .closed, queue)) ∨
    (∃ dropped, queue.dropped = some dropped ∧
      queue.take = (some (.reportDropped dropped), { queue with dropped := none })) ∨
    (∃ job jobs, queue.dropped = none ∧ queue.jobs = job :: jobs ∧
      queue.take = (some (.deliver job), { queue with jobs := jobs })) ∨
    (queue.dropped = none ∧ queue.jobs = [] ∧ queue.take = (none, queue)) := by
  unfold EndpointQueue.take
  split
  · exact .inl rfl
  · right
    split
    · next dropped hdropped => exact .inl ⟨dropped, hdropped, rfl⟩
    · next hdropped =>
      right
      split
      · next job jobs hjobs => exact .inl ⟨job, jobs, hdropped, hjobs, rfl⟩
      · next hjobs => exact .inr ⟨hdropped, hjobs, rfl⟩

/-- What a task does with it. -/
theorem poll_cases (lane : Lane) (found : Bool) :
    (lane.poll found = { lane with phase := .exited }) ∨
    (∃ dropped, lane.queue.dropped = some dropped ∧
      lane.poll found = { lane with
        queue := { lane.queue with dropped := none }
        phase := if found then .reporting dropped else .exited }) ∨
    (∃ job jobs, lane.queue.dropped = none ∧ lane.queue.jobs = job :: jobs ∧
      lane.poll found = { lane with
        queue := { lane.queue with jobs := jobs }
        phase := if found then .delivering job else .exited
        handed := lane.handed ++ [job] }) ∨
    (lane.queue.dropped = none ∧ lane.queue.jobs = [] ∧
      lane.poll found = { lane with phase := .idle }) := by
  unfold Lane.poll
  rcases take_cases lane.queue with htake | ⟨dropped, hdropped, htake⟩ |
    ⟨job, jobs, hdropped, hjobs, htake⟩ | ⟨hdropped, hjobs, htake⟩
  · exact .inl (by rw [htake])
  · exact .inr (.inl ⟨dropped, hdropped, by rw [htake]⟩)
  · exact .inr (.inr (.inl ⟨job, jobs, hdropped, hjobs, by rw [htake]⟩))
  · exact .inr (.inr (.inr ⟨hdropped, hjobs, by rw [htake]⟩))

namespace Lane.Sound

variable {id : String} {lane : Lane}

/-- Polling keeps the lane sound. -/
theorem poll (h : lane.Sound id) (found : Bool) : (lane.poll found).Sound id := by
  rcases poll_cases lane found with hpoll | ⟨dropped, hdropped, hpoll⟩ |
    ⟨job, jobs, hdropped, hjobs, hpoll⟩ | ⟨hdropped, hjobs, hpoll⟩
  · rw [hpoll]
    exact h.busy (by simp) (by simp) (by simp)
  · rw [hpoll]
    refine ⟨h.bounded, h.jobs_id, fun _ hnone ↦ (by cases hnone), fun other hphase ↦ ?_,
      fun other hphase ↦ ?_, h.order, fun _ hasleep ↦ ?_⟩
    · cases found <;> cases hphase
      exact h.dropped_id dropped hdropped
    · cases found <;> cases hphase
    · cases found <;> simp at hasleep
  · have hbounded := h.bounded
    have hids := h.jobs_id
    have horder := h.order
    rw [hjobs] at hbounded hids horder
    rw [hpoll]
    refine ⟨Nat.le_of_succ_le hbounded, fun other hother ↦ hids other (List.mem_cons_of_mem _ hother),
      h.dropped_id, fun other hphase ↦ ?_, fun other hphase ↦ ?_, ?_, fun _ hasleep ↦ ?_⟩
    · cases found <;> cases hphase
    · cases found <;> cases hphase
      exact hids job List.mem_cons_self
    · simpa using horder
    · cases found <;> simp at hasleep
  · rw [hpoll]
    exact ⟨h.bounded, h.jobs_id, h.dropped_id, fun _ hphase ↦ (by cases hphase),
      fun _ hphase ↦ (by cases hphase), h.order, fun _ _ ↦ ⟨hjobs, hdropped⟩⟩

/-- A step of the worker keeps the lane sound. -/
theorem work (h : lane.Sound id) (found : Bool) : (lane.work found).Sound id := by
  unfold Lane.work
  split
  · exact h.poll found
  · next hphase =>
    split
    · exact ⟨h.bounded, h.jobs_id, h.dropped_id, fun _ hother ↦ (by cases hother),
        fun _ hother ↦ (by cases hother), h.order, fun _ hasleep ↦ (by simp at hasleep)⟩
    · next hpermit =>
      refine ⟨h.bounded, h.jobs_id, h.dropped_id, fun _ hother ↦ (by cases hother),
        fun _ hother ↦ (by cases hother), h.order, fun howed _ ↦ ?_⟩
      exact h.awake howed (.inr ⟨hphase, by simpa using hpermit⟩)
  · split
    · exact h.busy (by simp) (by simp) (by simp)
    · exact h
  · exact ⟨h.bounded, h.jobs_id, h.dropped_id, fun _ hother ↦ (by cases hother),
      fun _ hother ↦ (by cases hother), h.order, fun _ hasleep ↦ (by simp at hasleep)⟩
  · exact h.busy (by simp) (by simp) (by simp)
  · exact h

/-- Each step of a lane keeps it. -/
theorem moves (h : lane.Sound id) {held : Bool} {lane' : Lane} (hmove : lane.Moves id held lane') :
    lane'.Sound id := by
  cases hmove with
  | stays => exact h
  | push job hid => exact h.push hid
  | settle => exact h.settle
  | close _ => exact h.close
  | work found _ => exact h.work found

end Lane.Sound

/-! ## The account of a lane -/

/-- Each job that was put into the queue was taken from it, is in it or is counted as lost. -/
def Lane.Balanced (lane : Lane) : Prop :=
  lane.emitted.length = lane.handed.length + lane.queue.jobs.length +
    (lane.reported.map DroppedJobs.count).sum + (lane.queue.lost + lane.phase.unlogged)

/-- One more lost job can be counted. -/
def EndpointQueue.Unsaturated (queue : EndpointQueue) : Prop :=
  ∀ dropped, queue.dropped = some dropped → dropped.count < maxU32

private theorem lost_add {queue : EndpointQueue} (h : queue.Unsaturated) (old : Job) :
    (DroppedJobs.add queue.dropped old).count = queue.lost + 1 := by
  unfold DroppedJobs.add EndpointQueue.lost
  cases hdropped : queue.dropped with
  | none => rfl
  | some dropped =>
    have hlt := h dropped hdropped
    simp only [Option.map_some, Option.getD_some]
    omega

namespace Lane.Balanced

variable {lane : Lane}

/-- A pushed job keeps the lane balanced. -/
theorem push (h : lane.Balanced) (hcount : lane.queue.Unsaturated) (job : Job) :
    (lane.push job).Balanced := by
  unfold Lane.Balanced at *
  rcases push_cases lane.queue job with ⟨-, hpush⟩ | ⟨old, rest, hjobs, -, hpush⟩
  · simp only [Lane.push, hpush, EndpointQueue.lost, List.length_append, List.length_singleton] at h ⊢
    omega
  · have hlost := lost_add hcount old
    have hnew : (lane.push job).queue.lost = lane.queue.lost + 1 := by
      simp only [Lane.push, hpush, EndpointQueue.lost, Option.map_some, Option.getD_some, hlost]
    rw [hnew]
    simp only [Lane.push, hpush, List.length_append, List.length_singleton]
    rw [hjobs, List.length_cons] at h
    omega

/-- A notification keeps the lane balanced. -/
theorem notify (h : lane.Balanced) {owed : Bool} : ({ lane.notify with owed := owed } : Lane).Balanced := by
  unfold Lane.notify
  split
  · next hphase =>
    unfold Lane.Balanced at *
    rw [hphase] at h
    exact h
  · exact h

/-- A poll of a live dispatcher keeps the lane balanced. -/
theorem poll (h : lane.Balanced) (hphase : lane.phase = .polling) : (lane.poll true).Balanced := by
  unfold Lane.Balanced at *
  rw [hphase] at h
  rcases poll_cases lane true with hpoll | ⟨dropped, hdropped, hpoll⟩ |
    ⟨job, jobs, hdropped, hjobs, hpoll⟩ | ⟨hdropped, hjobs, hpoll⟩
  · rw [hpoll]
    exact h
  · rw [hpoll]
    simp only [EndpointQueue.lost, hdropped, WorkerPhase.unlogged, Option.map_some, Option.getD_some,
      Option.map_none, Option.getD_none, if_true] at h ⊢
    omega
  · rw [hpoll]
    simp only [EndpointQueue.lost, hjobs, hdropped, WorkerPhase.unlogged, List.length_cons,
      List.length_append, List.length_nil, if_true] at h ⊢
    omega
  · rw [hpoll]
    exact h

/-- A step of the worker of a live dispatcher keeps the lane balanced. -/
theorem work (h : lane.Balanced) : (lane.work true).Balanced := by
  unfold Lane.work
  split
  · next hphase => exact h.poll hphase
  · next hphase =>
    unfold Lane.Balanced at *
    rw [hphase] at h
    split <;> exact h
  · next notified hphase =>
    split
    · unfold Lane.Balanced at *
      rw [hphase] at h
      exact h
    · exact h
  · next dropped hphase =>
    unfold Lane.Balanced at *
    rw [hphase] at h
    simp only [WorkerPhase.unlogged, List.map_append, List.map_singleton, List.sum_append,
      List.sum_singleton] at h ⊢
    omega
  · next job hphase =>
    unfold Lane.Balanced at *
    rw [hphase] at h
    exact h
  · exact h

/-- Each step of the lane of a held dispatcher keeps it while the count of lost jobs has room. -/
theorem moves (h : lane.Balanced) {id : String} {lane' : Lane} (hcount : lane.queue.Unsaturated)
    (hmove : lane.Moves id true lane') : lane'.Balanced := by
  cases hmove with
  | stays => exact h
  | push job hid => exact h.push hcount job
  | settle => exact h.notify
  | close hheld => cases hheld
  | work found hfound =>
    rw [hfound rfl]
    exact h.work

end Lane.Balanced

/-- The task has not ended and its queue is open. -/
def Lane.Alive (lane : Lane) : Prop := lane.phase ≠ .exited ∧ lane.queue.closed = false

namespace Lane.Alive

variable {lane : Lane}

/-- A poll of a live dispatcher keeps the worker alive. -/
theorem poll (h : lane.Alive) : (lane.poll true).Alive := by
  have hopen : lane.queue.take = (some .closed, lane.queue) → False := by
    intro htake
    have hnot := congrArg Prod.fst htake
    unfold EndpointQueue.take at hnot
    rw [if_neg (by rw [h.2]; decide)] at hnot
    split at hnot
    · cases hnot
    · split at hnot <;> cases hnot
  unfold Lane.poll
  rcases take_cases lane.queue with htake | ⟨dropped, hdropped, htake⟩ |
    ⟨job, jobs, hdropped, hjobs, htake⟩ | ⟨hdropped, hjobs, htake⟩
  · exact absurd htake hopen
  · rw [htake]
    exact ⟨fun hphase ↦ (by cases hphase), h.2⟩
  · rw [htake]
    exact ⟨fun hphase ↦ (by cases hphase), h.2⟩
  · rw [htake]
    exact ⟨fun hphase ↦ (by cases hphase), h.2⟩

/-- A step of the worker of a live dispatcher keeps it alive. -/
theorem work (h : lane.Alive) : (lane.work true).Alive := by
  unfold Lane.work
  split
  · exact h.poll
  · split
    · exact ⟨fun hphase ↦ (by cases hphase), h.2⟩
    · exact ⟨fun hphase ↦ (by cases hphase), h.2⟩
  · split
    · exact ⟨fun hphase ↦ (by cases hphase), h.2⟩
    · exact h
  · exact ⟨fun hphase ↦ (by cases hphase), h.2⟩
  · exact ⟨fun hphase ↦ (by cases hphase), h.2⟩
  · exact h

/-- A held dispatcher keeps the task going. -/
theorem moves (h : lane.Alive) {id : String} {lane' : Lane} (hmove : lane.Moves id true lane') :
    lane'.Alive := by
  cases hmove with
  | stays => exact h
  | push job hid =>
    refine ⟨h.1, ?_⟩
    rcases push_cases lane.queue job with ⟨-, hpush⟩ | ⟨old, rest, -, -, hpush⟩
    · simp only [Lane.push, hpush]
      exact h.2
    · simp only [Lane.push, hpush]
      exact h.2
  | settle =>
    unfold Lane.settle Lane.notify
    split
    · exact ⟨fun hphase ↦ (by cases hphase), h.2⟩
    · exact h
  | close hheld => cases hheld
  | work found hfound =>
    rw [hfound rfl]
    exact h.work

end Lane.Alive

end Engine.Webhook
