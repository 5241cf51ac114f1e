import FluxDown.Base.Run
import FluxDown.Base.Saturating
import FluxDown.Base.SortedMap
import FluxDown.Link.Text

/-!
# Delivery of events to endpoints

Library `Engine`. An event goes to each endpoint that wants it: its job is put into the queue of the
endpoint's id, from which one task takes jobs in turn. Queues and tasks are made when an id is seen
first. A full queue loses its oldest job, and the task reports how many were lost. The locks are
never poisoned, as nothing panics that holds one.
-/

namespace Engine.Webhook

open Base

/-! ## Events and endpoints -/

/-- Events (`src/native/engine/src/webhook.rs:85–100`). -/
inductive WebhookEventKind where
  | taskCreated
  | taskStarted
  | taskCompleted
  | taskFailed
  | taskPaused
  | queueStarted
  | queueDrained
deriving DecidableEq

/-- The name of an event (`webhook.rs:115–125`). -/
def WebhookEventKind.wire : WebhookEventKind → String
  | taskCreated => "task.created"
  | taskStarted => "task.started"
  | taskCompleted => "task.completed"
  | taskFailed => "task.failed"
  | taskPaused => "task.paused"
  | queueStarted => "queue.started"
  | queueDrained => "queue.drained"

/-- What the queues read of an event (`webhook.rs:164–170`). -/
structure WebhookEvent where
  kind : WebhookEventKind
  queueId : String
deriving DecidableEq

/-- Services (`webhook.rs:418–430`). -/
inductive Preset where
  | ntfy
  | gotify
  | bark
  | serverChan
  | wecom
  | feishu
  | dingtalk
  | telegram
  | discord
  | slack
  | custom
deriving DecidableEq

namespace Preset

/-- All of them, in the order of the source (`webhook.rs:448–460`). -/
def all : List Preset :=
  [ntfy, gotify, bark, serverChan, wecom, feishu, dingtalk, telegram, discord, slack, custom]

/-- The name of a service (`webhook.rs:462–476`). -/
def wire : Preset → String
  | ntfy => "ntfy"
  | gotify => "gotify"
  | bark => "bark"
  | serverChan => "serverchan"
  | wecom => "wecom"
  | feishu => "feishu"
  | dingtalk => "dingtalk"
  | telegram => "telegram"
  | discord => "discord"
  | slack => "slack"
  | custom => "custom"

/-- `webhook.rs:479–484`. -/
def fromWire (s : String) : Preset := (all.find? fun preset ↦ preset.wire == s).getD custom

/-- The label of a service (`webhook.rs:486–500`). -/
def label : Preset → String
  | ntfy => "ntfy"
  | gotify => "Gotify"
  | bark => "Bark"
  | serverChan => "Server酱"
  | wecom => "企业微信"
  | feishu => "飞书"
  | dingtalk => "钉钉"
  | telegram => "Telegram"
  | discord => "Discord"
  | slack => "Slack"
  | custom => "Custom"

end Preset

/-- What the queues read of an endpoint (`webhook.rs:274–307`). -/
structure EndpointSpec where
  id : String
  name : String
  preset : String
  url : String
  enabled : Bool
  events : List String
  queueId : String
deriving DecidableEq

namespace EndpointSpec

variable (spec : EndpointSpec)

/-- `webhook.rs:367–370`. -/
def subscribes (kind : WebhookEventKind) : Bool := spec.events.any fun event ↦ event == kind.wire

/-- `webhook.rs:372–374`. -/
def matchesQueue (queueId : String) : Bool := spec.queueId.isEmpty || spec.queueId == queueId

/-- The name that is shown (`webhook.rs:377–387`). -/
def displayName : String :=
  if Link.trim spec.name.toList ≠ [] then spec.name
  else if (Preset.fromWire spec.preset).label.isEmpty then spec.url
  else (Preset.fromWire spec.preset).label

/-- The endpoint gets the event (`webhook.rs:1178–1182`). -/
def wants (event : WebhookEvent) : Bool :=
  spec.enabled && spec.subscribes event.kind && spec.matchesQueue event.queueId

end EndpointSpec

/-! ## Queues -/

/-- `webhook.rs:68`. -/
def maxQueuedJobsPerEndpoint : Nat := 256

/-- `webhook.rs:49`. -/
def maxDeliveryLog : Nat := 1000

/-- A delivery to be made (`webhook.rs:890–893`). -/
structure Job where
  spec : EndpointSpec
  event : WebhookEvent
deriving DecidableEq

/-- The account of lost jobs (`webhook.rs:896–901`). -/
structure DroppedJobs where
  count : Nat
  spec : EndpointSpec
  event : String
deriving DecidableEq

/-- A queue with the permit of its notifier (`webhook.rs:904–924`). -/
structure EndpointQueue where
  jobs : List Job := []
  dropped : Option DroppedJobs := none
  closed : Bool := false
  permit : Bool := false

/-- One more job is lost (`webhook.rs:941–954`). -/
def DroppedJobs.add (dropped : Option DroppedJobs) (old : Job) : DroppedJobs where
  count := match dropped with
    | some dropped => min (dropped.count + 1) maxU32
    | none => 1
  spec := old.spec
  event := old.event.kind.wire

/-- Put a job at the end; a full queue loses its first (`webhook.rs:934–959`). -/
def EndpointQueue.push (queue : EndpointQueue) (job : Job) : EndpointQueue :=
  match queue.jobs with
  | old :: rest =>
    if maxQueuedJobsPerEndpoint ≤ queue.jobs.length then
      { queue with dropped := some (DroppedJobs.add queue.dropped old), jobs := rest ++ [job] }
    else { queue with jobs := queue.jobs ++ [job] }
  | [] => { queue with jobs := [job] }

/-- What the task has to do (`webhook.rs:911–915`). -/
inductive QueueStep where
  | deliver (job : Job)
  | reportDropped (dropped : DroppedJobs)
  | closed

/-- The next thing to do and the queue without it (`webhook.rs:971–982`). -/
def EndpointQueue.take (queue : EndpointQueue) : Option QueueStep × EndpointQueue :=
  if queue.closed then (some .closed, queue)
  else
    match queue.dropped with
    | some dropped => (some (.reportDropped dropped), { queue with dropped := none })
    | none =>
      match queue.jobs with
      | job :: jobs => (some (.deliver job), { queue with jobs := jobs })
      | [] => (none, queue)

/-- What is logged of a delivery (`webhook.rs:762–784`), as far as the report of lost jobs differs in
it from one to the next. -/
structure WebhookDelivery where
  event : String
  endpointId : String
  endpointName : String
  attempts : Nat
  success : Bool
  error : String
deriving DecidableEq

/-- The report of lost jobs (`webhook.rs:1256–1287`). -/
def droppedRecord (dropped : DroppedJobs) : WebhookDelivery where
  event := dropped.event
  endpointId := dropped.spec.id
  endpointName := dropped.spec.displayName
  attempts := 0
  success := false
  error := "dropped " ++ toString dropped.count ++
    " queued delivery(ies): endpoint queue full (limit " ++ toString maxQueuedJobsPerEndpoint ++
    "), oldest discarded"

/-! ## The dispatcher and its tasks -/

/-- Where a task is (`webhook.rs:1231–1252`): before it looks, after it found nothing, asleep until it
is notified, with a report, with a delivery, at its end. -/
inductive WorkerPhase where
  | polling
  | idle
  | waiting (notified : Bool)
  | reporting (dropped : DroppedJobs)
  | delivering (job : Job)
  | exited
deriving DecidableEq

/-- A task and its queue. -/
structure Worker where
  queue : Nat
  phase : WorkerPhase := .polling
deriving DecidableEq

/-- Where `emit` is (`webhook.rs:1171–1196`): not running, behind its look at the flag, before a job,
with the queue of one, before the notification. -/
inductive EmitPhase where
  | returned
  | flagged (event : WebhookEvent)
  | targets (jobs : List Job)
  | pushing (queue : Nat) (job : Job) (rest : List Job)
  | notifying (queue : Nat) (rest : List Job)

/-- The state of the dispatcher (`webhook.rs:985–1014`). `held` tells that it has not been given up;
`emitted`, `handed` and `reported` list the jobs that were put into queues, those that were taken from
them and the reports that were logged, each in order. -/
structure State where
  held : Bool := true
  endpoints : List EndpointSpec := []
  anyEnabled : Bool := false
  log : List WebhookDelivery := []
  queues : List EndpointQueue := []
  map : SortedMap String Nat := .empty
  workers : List Worker := []
  emit : EmitPhase := .returned
  emitted : List Job := []
  handed : List Job := []
  reported : List DroppedJobs := []

namespace State

variable (s : State)

/-- A change of one queue. -/
def onQueue (q : Nat) (f : EndpointQueue → EndpointQueue) : State :=
  { s with queues := s.queues.modify q f }

/-- A task goes on. -/
def setPhase (k : Nat) (phase : WorkerPhase) : State :=
  { s with workers := s.workers.modify k fun worker ↦ { worker with phase := phase } }

/-- A notification: it wakes a task that sleeps, or is kept for the next that would. -/
def notifyOne (q : Nat) : State :=
  match s.workers.findIdx? fun worker ↦ worker.queue = q && worker.phase = .waiting false with
  | some k => s.setPhase k (.waiting true)
  | none => s.onQueue q fun queue ↦ { queue with permit := true }

/-- Append a record to the log (`webhook.rs:1302–1311`). -/
def pushLog (record : WebhookDelivery) : State :=
  { s with log := (if maxDeliveryLog ≤ s.log.length then s.log.drop 1 else s.log) ++ [record] }

/-- The queue of an id, made with its task where there is none (`webhook.rs:1402–1415`). -/
def workerFor (id : String) : Nat × State :=
  match s.map.get? id with
  | some q => (q, s)
  | none => (s.queues.length,
      { s with
        queues := s.queues ++ [{}]
        workers := s.workers ++ [{ queue := s.queues.length }]
        map := s.map.insert id s.queues.length })

/-- The next step of `emit` (`webhook.rs:1171–1196`). -/
def emitStep : State :=
  match s.emit with
  | .returned => s
  | .flagged event =>
    { s with
      emit := .targets ((s.endpoints.filter fun spec ↦ spec.wants event).map fun spec ↦
        { spec := spec, event := event }) }
  | .targets [] => { s with emit := .returned }
  | .targets (job :: rest) =>
    { (s.workerFor job.spec.id).2 with emit := .pushing (s.workerFor job.spec.id).1 job rest }
  | .pushing q job rest =>
    { s.onQueue q fun queue ↦ queue.push job with
      emit := .notifying q rest
      emitted := s.emitted ++ [job] }
  | .notifying q rest => { s.notifyOne q with emit := .targets rest }

/-- A task looks at its queue and at the dispatcher (`webhook.rs:1233–1237`); `alive` tells whether it
still finds that where it was given up. -/
def poll (k : Nat) (worker : Worker) (alive : Bool) : State :=
  match s.queues[worker.queue]? with
  | none => s
  | some queue =>
    match queue.take with
    | (none, _) => s.setPhase k .idle
    | (some step, rest) =>
      let taken := s.onQueue worker.queue fun _ ↦ rest
      match step with
      | .closed => taken.setPhase k .exited
      | .reportDropped dropped =>
        if s.held || alive then taken.setPhase k (.reporting dropped) else taken.setPhase k .exited
      | .deliver job =>
        { taken.setPhase k (if s.held || alive then .delivering job else .exited) with
          handed := s.handed ++ [job] }

/-- The next step of a task (`webhook.rs:1229–1253`); `record` is what comes of a delivery. -/
def work (k : Nat) (alive : Bool) (record : WebhookDelivery) : State :=
  match s.workers[k]? with
  | none => s
  | some worker =>
    match worker.phase with
    | .polling => s.poll k worker alive
    | .idle =>
      if (s.queues[worker.queue]?).any EndpointQueue.permit then
        (s.onQueue worker.queue fun queue ↦ { queue with permit := false }).setPhase k .polling
      else s.setPhase k (.waiting false)
    | .waiting notified => if notified then s.setPhase k .polling else s
    | .reporting dropped =>
      { (s.pushLog (droppedRecord dropped)).setPhase k .polling with
        reported := s.reported ++ [dropped] }
    | .delivering _ => (s.pushLog record).setPhase k .polling
    | .exited => s

/-- A queue is closed (`webhook.rs:962–967`). -/
def closeQueue (q : Nat) : State :=
  (s.onQueue q fun queue ↦ { queue with closed := true }).notifyOne q

end State

/-- One step: `emit` is called, with one call at a time; it goes on; the table and, behind it, the flag
are stored (`webhook.rs:1088–1125`); a task goes on; the dispatcher is given up, and with it its queues
are closed (`webhook.rs:1289–1299`). -/
inductive Op where
  | emit (event : WebhookEvent)
  | emitStep
  | reloadEndpoints (endpoints : List EndpointSpec)
  | storeEnabled (enabled : Bool)
  | work (k : Nat) (alive : Bool) (record : WebhookDelivery)
  | release
  | close (q : Nat)

/-- One step of the system. -/
def step (s : State) : Op → State
  | .emit event =>
    match s.emit with
    | .returned => if s.held && s.anyEnabled then { s with emit := .flagged event } else s
    | _ => s
  | .emitStep => s.emitStep
  | .reloadEndpoints endpoints => { s with endpoints := endpoints }
  | .storeEnabled enabled => { s with anyEnabled := enabled }
  | .work k alive record => s.work k alive record
  | .release =>
    match s.emit with
    | .returned => { s with held := false }
    | _ => s
  | .close q => if s.held then s else s.closeQueue q

end Engine.Webhook
