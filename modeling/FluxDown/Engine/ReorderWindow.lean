import FluxDown.Base.Run
import FluxDown.Base.SortedMap
import FluxDown.Engine.SegmentRetry

/-!
# Parallel downloads and the ordered writer of a playlist

Library `Engine`. A dispatcher starts one worker for each segment of a playlist, in order, a writer
takes their results from a bounded channel and appends them to the file in order. A worker holds a
permit while it downloads. How far the dispatcher runs ahead of the writer is bounded by a window of
segments and bytes. A step of a party runs from one await to the next, and the steps of all parties
interleave in any order.
-/

namespace Engine.ReorderWindow

open Base SegmentRetry

/-- `src/native/engine/src/hls_downloader.rs:363`. -/
def reorderAheadPerConnection : Nat := 8

/-- `hls_downloader.rs:367`. -/
def reorderBufferBytes : Nat := 32 * 1024 * 1024

/-- What the parties are started with: the first segment to write, the number of segments and the
number of connections, which `hls_concurrency` clamps (`hls_downloader.rs:379–388`). -/
structure Setup where
  first : Nat
  count : Nat
  concurrency : Nat
  concurrency_pos : 0 < concurrency

namespace Setup

variable (setup : Setup)

/-- Segments that the dispatcher may be ahead of the writer, and the capacity of the channel
(`hls_downloader.rs:5114–5116, 2200`). -/
def maxAhead : Nat := min (max setup.concurrency 1 * reorderAheadPerConnection) (2 ^ 64 - 1)

/-- Segments to download (`hls_downloader.rs:3148–3168`). -/
def jobs : Nat := setup.count - setup.first

end Setup

/-- The shared state of the window (`hls_downloader.rs:5088–5093`). `version` is that of the watch
channel it is in, which each notification raises. The lengths that `buffered` counts are those of
vectors in memory, whose sum is far from the end of a `u64`. -/
structure WindowState where
  nextToWrite : Nat
  buffered : Nat := 0
  version : Nat := 0

/-- The segment may be dispatched (`hls_downloader.rs:5121–5124`). -/
def Setup.admits (setup : Setup) (state : WindowState) (idx : Nat) : Bool :=
  decide (idx ≤ state.nextToWrite) ||
    decide (idx - state.nextToWrite < setup.maxAhead) &&
      decide (state.buffered < reorderBufferBytes)

namespace WindowState

/-- One segment is downloaded; nobody is woken (`hls_downloader.rs:5136–5141`). -/
def buffer (state : WindowState) (bytes : Nat) : WindowState :=
  { state with buffered := state.buffered + bytes }

/-- One segment is written (`hls_downloader.rs:5144–5149`). -/
def advance (state : WindowState) (nextToWrite bytes : Nat) : WindowState :=
  { nextToWrite := nextToWrite
    buffered := state.buffered - bytes
    version := state.version + 1 }

end WindowState

/-- The length of a downloaded segment, or why there is none. -/
abbrev Outcome := Except DownloadError Nat

/-- What the end of a download does to the window (`hls_downloader.rs:5215–5216`). -/
def WindowState.account (state : WindowState) : Outcome → WindowState
  | .ok size => state.buffer size
  | .error _ => state

/-! ## Parties -/

/-- Where a worker is (`hls_downloader.rs:5205–5227`): before its first poll, in the download, before
it gives its permit back, before it counts its bytes, before its result is in the channel. -/
inductive WorkerPhase where
  | spawned
  | downloading
  | ended (outcome : Outcome)
  | released (outcome : Outcome)
  | sending (outcome : Outcome)
  | finished (outcome : Outcome)
  | panicked (text : String)

/-- A worker and whether the dispatcher has reaped it. -/
structure Worker where
  phase : WorkerPhase := .spawned
  joined : Bool := false

namespace WorkerPhase

/-- A permit is held. -/
def holding : WorkerPhase → Bool
  | spawned | downloading | ended _ => true
  | _ => false

/-- The future is gone, and its sender with it. -/
def gone : WorkerPhase → Bool
  | finished _ | panicked _ => true
  | _ => false

/-- Bytes that the worker has counted. -/
def counted : WorkerPhase → Nat
  | sending (.ok size) | finished (.ok size) => size
  | _ => 0

end WorkerPhase

/-- Where the dispatcher is (`hls_downloader.rs:5158–5239`): in the wait for the window, with the
version it has seen if it sleeps; in the wait for a permit; with a permit; after its loop, where it
has dropped its sender; at the end. -/
inductive DispatcherPhase where
  | admission (parked : Option Nat)
  | acquire
  | acquired
  | draining
  | returned

namespace DispatcherPhase

/-- Workers are reaped here. -/
def reaping : DispatcherPhase → Bool
  | admission _ | acquired | draining => true
  | acquire | returned => false

/-- After a worker was reaped the wait for the window starts anew (`hls_downloader.rs:5168–5183`). -/
def again : DispatcherPhase → DispatcherPhase
  | admission _ => admission none
  | phase => phase

/-- After a crash was reaped the wait for the window ends (`hls_downloader.rs:5177–5182`). -/
def broken : DispatcherPhase → DispatcherPhase
  | admission _ => draining
  | phase => phase

/-- The dispatcher has dropped its sender. -/
def gone : DispatcherPhase → Bool
  | draining | returned => true
  | _ => false

end DispatcherPhase

/-- Where the writer is (`hls_downloader.rs:2250–2464`): at the head of its loop, at the channel, in
the inner loop, at the file with a segment, behind it, after the loop, and where it drops the
receiver. -/
inductive WriterPhase where
  | top
  | receive
  | flush
  | writing (size : Nat)
  | saving
  | left
  | closing
  | out

/-- The writer is in its loop. -/
def WriterPhase.active : WriterPhase → Bool
  | .left | .closing | .out => false
  | _ => true

/-- What may go wrong for the writer. -/
inductive Fault where
  /-- The initialisation section of the segment is missing. -/
  | unprefetched (key : String)
  /-- The file takes no more. -/
  | write (storageFull : Bool)
  /-- The checkpoint is not stored. -/
  | checkpoint (error : DownloadError)
  /-- Nobody receives progress. -/
  | unwatched

/-- `hls_downloader.rs:3130–3136`. -/
def writeFailure (storageFull : Bool) : DownloadError :=
  if storageFull then .other "磁盘空间不足，请清理磁盘后重试" else .io false

/-- The state of all parties. Worker `k` has segment `first + k`; `written` lists the segments in the
order in which they were appended. -/
structure State where
  cancelled : Bool := false
  window : WindowState
  permits : Nat
  dispatcher : DispatcherPhase
  failure : Option DownloadError := none
  workers : List Worker := []
  queue : List (Nat × Outcome) := []
  closed : Bool := false
  writer : WriterPhase := .top
  fatalError : Option DownloadError := none
  nextToWrite : Nat
  pending : SortedMap Nat Nat := .empty
  written : List Nat := []

/-- The dispatcher takes its next job or leaves its loop. -/
def Setup.nextJob (setup : Setup) (dispatched : Nat) : DispatcherPhase :=
  if dispatched < setup.jobs then .admission none else .draining

/-- The start (`hls_downloader.rs:2197–2233`). -/
def Setup.start (setup : Setup) : State where
  window := { nextToWrite := setup.first }
  permits := setup.concurrency
  dispatcher := setup.nextJob 0
  nextToWrite := setup.first

namespace State

variable (setup : Setup) (s : State)

/-- The segment that is dispatched next. -/
def jobIdx : Nat := setup.first + s.workers.length

/-- A worker goes on. -/
def setPhase (k : Nat) (phase : WorkerPhase) : State :=
  { s with workers := s.workers.modify k fun worker ↦ { worker with phase := phase } }

/-- A worker is reaped. -/
def setJoined (k : Nat) : State :=
  { s with workers := s.workers.modify k fun worker ↦ { worker with joined := true } }

/-- The channel has no sender left. -/
def disconnected : Bool :=
  s.dispatcher.gone && s.workers.all fun worker ↦ worker.phase.gone

/-! ## The dispatcher -/

/-- The dispatcher sees the cancellation in one of its waits (`hls_downloader.rs:5170, 5186`). -/
def stop : State :=
  match s.dispatcher with
  | .admission _ | .acquire => if s.cancelled then { s with dispatcher := .draining } else s
  | _ => s

/-- The dispatcher looks at the window, at first and whenever it is woken
(`hls_downloader.rs:5127–5133, 5171–5176`). -/
def admission : State :=
  match s.dispatcher with
  | .admission parked =>
    if parked = some s.window.version then s
    else if setup.admits s.window (s.jobIdx setup) then { s with dispatcher := .acquire }
    else { s with dispatcher := .admission (some s.window.version) }
  | _ => s

/-- The dispatcher gets a permit (`hls_downloader.rs:5185–5192`). -/
def acquire : State :=
  match s.dispatcher with
  | .acquire =>
    if 0 < s.permits then { s with dispatcher := .acquired, permits := s.permits - 1 } else s
  | _ => s

/-- The dispatcher reaps a worker (`hls_downloader.rs:5177–5182, 5194–5198, 5230–5234, 5242–5256`). -/
def reap (k : Nat) : State :=
  match s.workers[k]? with
  | none => s
  | some worker =>
    if s.dispatcher.reaping && !worker.joined then
      match worker.phase with
      | .finished _ => { s.setJoined k with dispatcher := s.dispatcher.again }
      | .panicked text =>
        { s.setJoined k with
          cancelled := true
          failure := s.failure.or (some (.other ("HLS segment worker failed: " ++ text)))
          dispatcher := s.dispatcher.broken }
      | _ => s
    else s

/-- The dispatcher starts the worker, or gives up after a crash (`hls_downloader.rs:5199–5228`). It
may do so as soon as it has the permit: a worker can finish right after the dispatcher saw none. -/
def spawn : State :=
  match s.dispatcher with
  | .acquired =>
    if s.failure.isSome then { s with dispatcher := .draining, permits := s.permits + 1 }
    else
      { s with
        workers := s.workers ++ [{}]
        dispatcher := setup.nextJob (s.workers.length + 1) }
  | _ => s

/-- The dispatcher returns when it has reaped every worker (`hls_downloader.rs:5229–5239`). -/
def finish : State :=
  match s.dispatcher with
  | .draining => if s.workers.all Worker.joined then { s with dispatcher := .returned } else s
  | _ => s

/-! ## Workers -/

/-- The next step of a worker (`hls_downloader.rs:5205–5227`); `reply` is how its download ends, none
that it panics. -/
def work (k : Nat) (reply : Except String Outcome) : State :=
  match s.workers[k]? with
  | none => s
  | some worker =>
    match worker.phase with
    | .spawned =>
      if s.cancelled then s.setPhase k (.ended (.error .cancelled)) else s.setPhase k .downloading
    | .downloading =>
      match reply with
      | .ok outcome => s.setPhase k (.ended outcome)
      | .error text => { s.setPhase k (.panicked text) with permits := s.permits + 1 }
    | .ended outcome => { s.setPhase k (.released outcome) with permits := s.permits + 1 }
    | .released outcome =>
      { s.setPhase k (.sending outcome) with window := s.window.account outcome }
    | .sending outcome =>
      if s.closed then s.setPhase k (.finished outcome)
      else if s.queue.length < setup.maxAhead then
        { s.setPhase k (.finished outcome) with queue := s.queue ++ [(setup.first + k, outcome)] }
      else s
    | .finished _ | .panicked _ => s

/-! ## The writer -/

/-- The writer leaves its loop. -/
def leave (fatal : DownloadError) : State :=
  { s with writer := .left, fatalError := some fatal }

/-- The writer stops all and leaves its loop. -/
def abort (fatal : DownloadError) : State := { s.leave fatal with cancelled := true }

/-- The error of a channel without senders (`hls_downloader.rs:2283–2292`). -/
def closedError : DownloadError :=
  if s.cancelled then .cancelled
  else .other ("HLS segment workers exited unexpectedly before segment " ++ toString s.nextToWrite)

/-- The writer at the channel (`hls_downloader.rs:2259–2296`). -/
def receive : State :=
  if (s.pending.get? s.nextToWrite).isSome then { s with writer := .flush }
  else
    match s.queue with
    | (idx, .ok size) :: queue => { s with queue := queue, pending := s.pending.insert idx size }
    | (_, .error error) :: queue => { s with queue := queue }.abort error
    | [] => if s.disconnected then s.leave s.closedError else s

/-- The writer takes the next segment from those it holds (`hls_downloader.rs:2299–2310`). -/
def flush : State :=
  match s.pending.get? s.nextToWrite with
  | none => { s with writer := .top }
  | some size =>
    if s.cancelled then { s with pending := s.pending.erase s.nextToWrite }.leave .cancelled
    else { s with pending := s.pending.erase s.nextToWrite, writer := .writing size }

/-- The writer at the file (`hls_downloader.rs:2312–2388`). -/
def append (size : Nat) (fault : Option Fault) : State :=
  match fault with
  | some (.unprefetched key) =>
    s.leave (.other ("internal error: init segment for " ++ key ++ " was not prefetched"))
  | some (.write storageFull) => s.abort (writeFailure storageFull)
  | _ =>
    { s with
      writer := .saving
      written := s.written ++ [s.nextToWrite]
      nextToWrite := s.nextToWrite + 1
      window := s.window.advance (s.nextToWrite + 1) size }

/-- The writer after a segment: its checkpoint and its progress (`hls_downloader.rs:2390–2440`). -/
def save (fault : Option Fault) : State :=
  match fault with
  | some (.checkpoint error) => s.abort error
  | some .unwatched => s.abort .cancelled
  | _ => { s with writer := .flush }

/-- The next step of the writer (`hls_downloader.rs:2250–2464`). -/
def write (fault : Option Fault) : State :=
  match s.writer with
  | .top =>
    if s.nextToWrite < setup.count then
      if s.cancelled then s.leave .cancelled else { s with writer := .receive }
    else { s with writer := .left }
  | .receive => s.receive
  | .flush => s.flush
  | .writing size => s.append size fault
  | .saving => s.save fault
  | .left => { s with writer := .closing, cancelled := s.cancelled || s.fatalError.isSome }
  | .closing => { s with writer := .out, closed := true, queue := [] }
  | .out => s

end State

/-- The next step of one party; `cancel` is that of whoever holds the token besides them. -/
inductive Op where
  | cancel
  | stop
  | admission
  | acquire
  | reap (k : Nat)
  | spawn
  | finish
  | work (k : Nat) (reply : Except String Outcome)
  | write (fault : Option Fault)

/-- One step. -/
def Setup.step (setup : Setup) (s : State) : Op → State
  | .cancel => { s with cancelled := true }
  | .stop => s.stop
  | .admission => s.admission setup
  | .acquire => s.acquire
  | .reap k => s.reap k
  | .spawn => s.spawn setup
  | .finish => s.finish
  | .work k reply => s.work setup k reply
  | .write fault => s.write setup fault

end Engine.ReorderWindow
