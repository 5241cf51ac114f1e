import FluxDown.Protocol.Agent

/-!
# Tables that are loaded page by page

Library `Protocol`. A snapshot carries the numbers of its task rows and queue rows in place of the
rows, which a client fetches page by page with a cursor that does not depend on the number of rows
before it. Frames that come in the meantime are kept; when all pages are there, the tables are
installed and the frames taken after the number of the snapshot. The pages are read at different
times, so the rows may have some of the later changes in them already.
-/

namespace Protocol

open Base

variable {P : Payloads}

/-! ## Pages -/

/-- Rows of a page when the request names none (`src/native/protocol/src/table_sync.rs:26`). -/
def taskPageDefaultLimit : Nat := 2000

/-- Most rows of a page (`table_sync.rs:28`). -/
def taskPageMaxLimit : Nat := 5000

/-- Most frames kept during a load (`table_sync.rs:30`). -/
def tableSyncBacklogLimit : Nat := 65536

/-- The tables (`table_sync.rs:36–41`). -/
inductive TableSection where
  | tasks
  | queue
deriving DecidableEq

/-- Where the next page starts: after a task, or after a sort key. The source has it as a text, the
id or the number in decimal. -/
inductive PageCursor where
  | task (taskId : String)
  | order (key : Int)
deriving DecidableEq

/-- A request for a page (`table_sync.rs:47–55`). -/
structure TablePageParams where
  sect : TableSection
  cursor : Option PageCursor
  limit : Option Nat

/-- A page (`table_sync.rs:75–89`). -/
structure TablePage (P : Payloads) where
  epoch : String
  sequence : Nat
  sect : TableSection
  total : Nat
  tasks : List (TaskDto P)
  queue : List QueueOrderEntryDto
  nextCursor : Option PageCursor

namespace DaemonSnapshot

/-- The number of rows, unless there are none (`src/native/protocol/src/event.rs:1101–1103`). -/
def tableTotal (length : Nat) : Option Nat := if 0 < length then some length else none

/-- The projection without its tables (`event.rs:209–229`). -/
def pagedHeader (snapshot : DaemonSnapshot P) : DaemonSnapshot P :=
  { snapshot with
    tasks := []
    taskTotal := (tableTotal snapshot.tasks.length).or snapshot.taskTotal
    queueTotal := (tableTotal snapshot.queuePositions.length).or snapshot.queueTotal
    queuePositions := [] }

/-- Tasks after the cursor in the order of their ids, and the next cursor (`event.rs:249–267`). -/
def taskPage (snapshot : DaemonSnapshot P) (cursor : Option String) (limit : Nat) :
    List (TaskDto P) × Option String :=
  let rest := sortByRank TaskDto.taskId
    (snapshot.tasks.filter fun task ↦ cursor.all fun cursor ↦ decide (cursor < task.taskId))
  let page := rest.take (max limit 1)
  (page, if max limit 1 < rest.length then page.getLast?.map TaskDto.taskId else none)

/-- Queue rows after the cursor, those of one sort key together, and the next cursor
(`event.rs:271–303`). -/
def queuePage (snapshot : DaemonSnapshot P) (cursor : Option Int) (limit : Nat) :
    List QueueOrderEntryDto × Option Int :=
  let rest := cursor.elim snapshot.queuePositions fun cursor ↦
    snapshot.queuePositions.dropWhile fun entry ↦ entry.order ≤ cursor
  let first := rest.take (max limit 1)
  let ties := first.getLast?.elim [] fun last ↦
    (rest.drop (max limit 1)).takeWhile fun entry ↦ entry.order == last.order
  let page := first ++ ties
  (page.map entryOf,
    if page.length < rest.length then page.getLast?.map fun entry ↦ entry.order else none)

/-- Put a loaded task table in (`event.rs:305–309`). -/
def installTasks (snapshot : DaemonSnapshot P) (tasks : List (TaskDto P)) : DaemonSnapshot P :=
  { snapshot with tasks := tasks, taskTotal := none }.settleTaskTable

/-- Sort keys in their order, those of one key by task. -/
def sortEntries (entries : List QueueOrderEntryDto) : List QueueOrderEntryDto :=
  entries.mergeSort fun a b ↦ decide (a.order < b.order ∨ a.order = b.order ∧ a.taskId ≤ b.taskId)

/-- Put a loaded queue table in (`event.rs:313–329`). -/
def installQueue (snapshot : DaemonSnapshot P) (entries : List QueueOrderEntryDto) :
    DaemonSnapshot P :=
  { snapshot with
    queuePositions := renumber ((sortEntries entries).map unrankedRow)
    queueTotal := none }

end DaemonSnapshot

/-- The number of rows a request asks for. -/
def TablePageParams.rowLimit (params : TablePageParams) : Nat :=
  max 1 (min (params.limit.getD taskPageDefaultLimit) taskPageMaxLimit)

/-- The sort key a cursor names, and none where its text is no number; no request for the queue has
the cursor of a task. -/
def PageCursor.toOrder : PageCursor → Option Int
  | .task _ => none
  | .order key => some key

/-- The id a cursor names. -/
def PageCursor.toTask : PageCursor → Option String
  | .task taskId => some taskId
  | .order key => some (toString key)

/-- A page of the projection; nothing where the cursor is not one of the table
(`table_sync.rs:101–140`). -/
def TablePage.build (snapshot : DaemonSnapshot P) (epoch : String) (sequence : Nat)
    (params : TablePageParams) : Option (TablePage P) :=
  match params.sect with
  | .tasks =>
    let page := snapshot.taskPage (params.cursor.bind PageCursor.toTask) params.rowLimit
    some ⟨epoch, sequence, .tasks, snapshot.tasks.length, page.1, [], page.2.map .task⟩
  | .queue =>
    if params.cursor.all fun cursor ↦ cursor.toOrder.isSome then
      let page := snapshot.queuePage (params.cursor.bind PageCursor.toOrder) params.rowLimit
      some ⟨epoch, sequence, .queue, snapshot.queuePositions.length, [], page.1, page.2.map .order⟩
    else none

/-! ## The state of a load -/

/-- What ends a load (`table_sync.rs:145–154`). -/
inductive TableSyncError where
  | epochChanged
  | unexpectedSection
  | stalled
  | backlogOverflow
deriving DecidableEq

/-- One table of a load (`table_sync.rs:157–162`). -/
structure Section (α : Type) where
  wanted : Bool
  done : Bool
  cursor : Option PageCursor
  rows : List α

namespace Section

variable {α : Type}

/-- `table_sync.rs:165–172`. -/
def new (total : Option Nat) : Section α := ⟨total.isSome, total.isNone, none, []⟩

/-- `table_sync.rs:174–187`. -/
def accept (sect : Section α) (rows : List α) (requested next : Option PageCursor) :
    Except TableSyncError (Section α) :=
  if next.isSome && next = requested then .error .stalled
  else .ok { sect with rows := sect.rows ++ rows, done := next.isNone, cursor := next }

end Section

/-- A load (`table_sync.rs:203–210`). -/
structure TableSync (P : Payloads) where
  epoch : String
  baseSequence : Nat
  tasks : Section (TaskDto P)
  queue : Section QueueOrderEntryDto
  requested : Option (TableSection × Option PageCursor)
  backlog : List (EventFrame P)

namespace TableSync

/-- A load of the tables that are to be loaded, when there are some (`table_sync.rs:215–248`). -/
def forSnapshot (epoch : String) (baseSequence : Nat) (snapshot : DaemonSnapshot P) :
    Option (TableSync P) :=
  if snapshot.taskTotal.isNone && snapshot.queueTotal.isNone then none
  else some ⟨epoch, baseSequence, .new snapshot.taskTotal, .new snapshot.queueTotal, none, []⟩

/-- The table of the next page and its cursor. -/
def pending (sync : TableSync P) : Option (TableSection × Option PageCursor) :=
  if sync.tasks.wanted && !sync.tasks.done then some (.tasks, sync.tasks.cursor)
  else if sync.queue.wanted && !sync.queue.done then some (.queue, sync.queue.cursor)
  else none

/-- The next page to ask for (`table_sync.rs:262–277`). -/
def nextRequest (sync : TableSync P) : TableSync P × Option TablePageParams :=
  ({ sync with requested := sync.pending },
    sync.pending.map fun request ↦ ⟨request.1, request.2, none⟩)

/-- Take a page (`table_sync.rs:284–304`). -/
def accept (sync : TableSync P) (page : TablePage P) : Except TableSyncError (TableSync P) :=
  if page.epoch ≠ sync.epoch then .error .epochChanged
  else match sync.requested with
    | none => .error .unexpectedSection
    | some (.tasks, cursor) =>
      if page.sect ≠ .tasks then .error .unexpectedSection
      else (sync.tasks.accept page.tasks cursor page.nextCursor).map fun tasks ↦
        { sync with requested := none, tasks := tasks }
    | some (.queue, cursor) =>
      if page.sect ≠ .queue then .error .unexpectedSection
      else (sync.queue.accept page.queue cursor page.nextCursor).map fun queue ↦
        { sync with requested := none, queue := queue }

/-- Keep a frame (`table_sync.rs:311–317`). -/
def pushFrame (sync : TableSync P) (frame : EventFrame P) : Except TableSyncError (TableSync P) :=
  if tableSyncBacklogLimit ≤ sync.backlog.length then .error .backlogOverflow
  else .ok { sync with backlog := sync.backlog ++ [frame] }

/-- Put the loaded tables in; the frames that were kept are to be taken next
(`table_sync.rs:321–340`). -/
def finish (sync : TableSync P) (snapshot : DaemonSnapshot P) :
    DaemonSnapshot P × List (EventFrame P) :=
  let snapshot := if sync.tasks.wanted then snapshot.installTasks sync.tasks.rows else snapshot
  let snapshot := if sync.queue.wanted then snapshot.installQueue sync.queue.rows else snapshot
  (snapshot, sync.backlog)

end TableSync

/-- A client of the daemon at a cursor takes a stream of frames; nothing where one asks it to start
over or is none of the daemon. -/
def replayDaemon (epoch : String) (snapshot : DaemonSnapshot P) (cursor : Nat) :
    List (EventFrame P) → Option (DaemonSnapshot P)
  | [] => some snapshot
  | frame :: frames => match judgeFrame epoch cursor frame, frame.event with
    | .accept, .daemon event =>
      replayDaemon epoch (applyDaemonEvent snapshot event) frame.sequence frames
    | .accept, .agent _ => none
    | .skip, _ => replayDaemon epoch snapshot cursor frames
    | .resync, _ => none

/-! ## A load beside a server that goes on -/

/-- A server, the frames on their way to the client, and the client's load. -/
structure TableLoad (P : Payloads) where
  server : DaemonSnapshot P
  sequence : Nat
  inFlight : List (EventFrame P)
  sync : TableSync P

/-- The server takes an event and sends its frame, a frame arrives, or a page is asked for and
taken. -/
inductive LoadAction (P : Payloads) where
  | publish (event : DaemonEvent P)
  | deliver
  | page (limit : Option Nat)

namespace TableLoad

/-- A load of the projection at a place of the stream, when it has tables to load. -/
def start (server : DaemonSnapshot P) (epoch : String) (sequence : Nat) : Option (TableLoad P) :=
  (TableSync.forSnapshot epoch sequence server.pagedHeader).map fun sync ↦
    ⟨server, sequence, [], sync⟩

/-- The frame of the next event. -/
def frame (load : TableLoad P) (event : DaemonEvent P) : EventFrame P :=
  ⟨load.sync.epoch, load.sequence + 1, none, .daemon event⟩

/-- The client asks for a page, which the server reads. -/
def fetch (load : TableLoad P) (limit : Option Nat) : Option (TableLoad P) :=
  match load.sync.nextRequest with
  | (sync, none) => some { load with sync := sync }
  | (sync, some params) =>
    (TablePage.build load.server load.sync.epoch load.sequence { params with limit := limit }).bind
      fun page ↦ (sync.accept page).toOption.map fun sync ↦ { load with sync := sync }

/-- One step; nothing where the client gives the load up. -/
def step (load : TableLoad P) : LoadAction P → Option (TableLoad P)
  | .publish event =>
    some { load with
      server := applyDaemonEvent load.server event
      sequence := load.sequence + 1
      inFlight := load.inFlight ++ [load.frame event] }
  | .deliver => match load.inFlight with
    | [] => some load
    | frame :: frames =>
      (load.sync.pushFrame frame).toOption.map fun sync ↦
        { load with inFlight := frames, sync := sync }
  | .page limit => load.fetch limit

/-- The load after the steps. -/
def run (load : TableLoad P) (actions : List (LoadAction P)) : Option (TableLoad P) :=
  actions.foldlM step load

/-- The events a server takes in the steps. -/
def published (actions : List (LoadAction P)) : List (DaemonEvent P) :=
  actions.filterMap fun
    | .publish event => some event
    | .deliver => none
    | .page _ => none

/-- The projection of the client when every frame has come. -/
def client (load : TableLoad P) (header : DaemonSnapshot P) : Option (DaemonSnapshot P) :=
  let finished := load.sync.finish header
  replayDaemon load.sync.epoch finished.1 load.sync.baseSequence (finished.2 ++ load.inFlight)

end TableLoad

end Protocol
