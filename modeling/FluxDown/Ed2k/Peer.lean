import FluxDown.Ed2k.Hash

/-!
# Downloading one block from a peer

Library `Ed2k`. After the upload slot is granted the client keeps up to three ranges of the
block in flight, asks for all of them again before it reads each frame, writes what it accepts
and forgets a range once it is covered. The peer takes one request after another and sends the
ranges of each in order; a step of the system is a frame sent, a frame read, or an interruption
of the download. Inflating a packed part and MD4 are parameters, frames are their decoded
fields.
-/

namespace Ed2k

/-- Pending ranges at once. `src/native/engine/src/ed2k/peer.rs:46`. -/
def maxInflight : Nat := 3

/-- Fragments of a block before it counts as a flood. `peer.rs:43`. -/
def maxIntervals : Nat := 16

/-- Largest payload of a frame. `peer.rs:49`. -/
def maxPeerFrame : Nat := blockSize + 1024

/-- A requested range, half open, with offsets into the file. -/
structure PartRange where
  start : Nat
  endExclusive : Nat
deriving DecidableEq

/-- Errors of a download, with the texts that tell them apart. -/
inductive DownloadError where
  | ed2kIntegrity (text : String)
  | ed2k (text : String)
  | io
  | cancelled
deriving DecidableEq

/-- The error is one that blacklists the source. -/
def DownloadError.isIntegrity : DownloadError → Bool
  | .ed2kIntegrity _ => true
  | _ => false

/-- Frames a peer sends after the slot is granted.
`src/native/engine/src/ed2k/proto.rs:335–375`. -/
inductive Ed2kMessage where
  | sendingPart (start endExclusive : Nat) (data : List UInt8)
  | compressedPart (start : Nat) (packed : List UInt8)
  | queueRank (rank : Nat)
  | outOfPartReqs
  | noFile
  | malformed (text : String)
  | other
deriving DecidableEq

/-- Bytes of the payload: the hash, the offsets and the data. `proto.rs:493–533`. -/
def Ed2kMessage.payloadLen (largeFile : Bool) : Ed2kMessage → Nat
  | .sendingPart _ _ data => 16 + 2 * (if largeFile then 8 else 4) + data.length
  | .compressedPart _ packed => 16 + (if largeFile then 8 else 4) + 4 + packed.length
  | .queueRank _ => 4
  | .outOfPartReqs | .noFile | .malformed _ | .other => 0

section Intervals

/-- Merge intervals in order of their starts. -/
def mergeSorted (current : Nat × Nat) : List (Nat × Nat) → List (Nat × Nat)
  | [] => [current]
  | (s, e) :: rest =>
    if s ≤ current.2 then mergeSorted (current.1, max current.2 e) rest
    else current :: mergeSorted (s, e) rest

/-- Merge touching and overlapping intervals. `peer.rs:657–674`. -/
def mergeIntervals (intervals : List (Nat × Nat)) : List (Nat × Nat) :=
  match intervals.insertionSort fun a b ↦ a.1 ≤ b.1 with
  | [] => []
  | first :: rest => mergeSorted first rest

/-- The block is covered. `peer.rs:677–679`. -/
def receivedCovers (received : List (Nat × Nat)) (blockLen : Nat) : Bool :=
  match received with
  | [(s, e)] => s == 0 && blockLen ≤ e
  | _ => false

/-- `peer.rs:687–689`. -/
def intervalCovered (received : List (Nat × Nat)) (s e : Nat) : Bool :=
  received.any fun r ↦ r.1 ≤ s && e ≤ r.2

end Intervals

/-- What a download works on: the block, the size of the file and the parameters. -/
structure BlockJob where
  blockStart : Nat
  blockEnd : Nat
  totalBytes : Nat
  largeFile : Bool
  inflate : List UInt8 → Option (List UInt8)
  hashPart : List UInt8 → Md4

/-- The job of a part of a file. -/
def BlockJob.ofPart (index totalBytes partSize : Nat) (largeFile : Bool)
    (inflate : List UInt8 → Option (List UInt8)) (hashPart : List UInt8 → Md4) : BlockJob where
  blockStart := (partSpan index totalBytes partSize).1
  blockEnd := (partSpan index totalBytes partSize).2
  totalBytes
  largeFile
  inflate
  hashPart

/-- The state of the request loop; `file` are the writes to disk and `delivered` the ranges of
the part frames that were read. `peer.rs:221–230`. -/
structure BlockDownload where
  received : List (Nat × Nat)
  inflight : List PartRange
  nextReqStart : Nat
  hasherBuf : List UInt8
  file : List (Nat × List UInt8)
  waitingAccept : Bool
  delivered : List (Nat × Nat)
  result : Option (Except DownloadError Md4)

namespace BlockDownload

variable (job : BlockJob)

/-- Fill up the ranges in flight. `peer.rs:237–244`. -/
def refill : Nat → List PartRange → Nat → List PartRange × Nat
  | 0, inflight, next => (inflight, next)
  | fuel + 1, inflight, next =>
    if inflight.length < maxInflight ∧ next < job.blockEnd then
      let reqEnd := min (next + blockSize) job.blockEnd
      refill fuel (inflight ++ [{ start := next, endExclusive := reqEnd }]) reqEnd
    else (inflight, next)

/-- The loop ends with the MD4 of the buffer. `peer.rs:308–314`. -/
def complete (c : BlockDownload) : BlockDownload :=
  { c with result := some (.ok (job.hashPart c.hasherBuf)) }

/-- The download fails. -/
def fail (c : BlockDownload) (e : DownloadError) : BlockDownload :=
  { c with result := some (.error e) }

/-- The head of the loop up to the next read, with the request that is sent.
`peer.rs:232–250`. -/
def turn (c : BlockDownload) : BlockDownload × Option (List PartRange) :=
  let (inflight, nextReqStart) := refill job maxInflight c.inflight c.nextReqStart
  let c := { c with inflight, nextReqStart }
  if inflight.isEmpty && receivedCovers c.received (job.blockEnd - job.blockStart) then
    (c.complete job, none)
  else if inflight.isEmpty then (c, none)
  else (c, some inflight)

/-- The state when the slot is granted. -/
def new : BlockDownload where
  received := []
  inflight := []
  nextReqStart := job.blockStart
  hasherBuf := List.replicate (job.blockEnd - job.blockStart) 0
  file := []
  waitingAccept := false
  delivered := []
  result := none

/-- Accept a part: checks, the write, the buffer, the intervals. `peer.rs:543–634`. -/
def acceptPart (c : BlockDownload) (start endExclusive : Nat) (data : List UInt8) :
    Except DownloadError BlockDownload :=
  if endExclusive ≤ start ∨ start < job.blockStart ∨ job.blockEnd < endExclusive ∨
      job.totalBytes < endExclusive then
    .error (.ed2kIntegrity s!"sendingpart out of bounds: [{start},{endExclusive}) not in [{job.blockStart},{job.blockEnd})")
  else if data.length ≠ endExclusive - start then
    .error (.ed2kIntegrity s!"sendingpart length mismatch: declared {endExclusive - start} got {data.length}")
  else if !(c.inflight.any fun r ↦ r.start ≤ start && endExclusive ≤ r.endExclusive) then
    .error (.ed2kIntegrity "unrequested data received")
  else
    let rel := start - job.blockStart
    if c.hasherBuf.length < rel + data.length then
      .error (.ed2kIntegrity "buffer overflow")
    else
      let received := mergeIntervals (c.received ++ [(rel, endExclusive - job.blockStart)])
      if maxIntervals < received.length then
        .error (.ed2kIntegrity "too many fragmented intervals (flood?)")
      else
        .ok { c with
          file := c.file ++ [(start, data)]
          hasherBuf := c.hasherBuf.take rel ++ data ++ c.hasherBuf.drop (rel + data.length)
          received
          inflight := c.inflight.filter fun r ↦
            !intervalCovered received (r.start - job.blockStart)
              (r.endExclusive - job.blockStart) }

/-- A part frame: noted as delivered, then accepted or not. -/
def takePart (c : BlockDownload) (start endExclusive : Nat) (data : List UInt8) : BlockDownload :=
  let c := { c with delivered := c.delivered ++ [(start, endExclusive)] }
  match c.acceptPart job start endExclusive data with
  | .ok c => c
  | .error e => c.fail e

/-- Inflate a part, up to a bound. `proto.rs:159–178`. -/
def decompressBounded (packed : List UInt8) (maxOutput : Nat) : Except DownloadError (List UInt8) :=
  match job.inflate packed with
  | none => .error (.ed2k "zlib decode error")
  | some data =>
    if maxOutput < data.length then
      .error (.ed2k s!"zlib output exceeds limit {maxOutput} (bomb?)")
    else .ok data

/-- What a frame does. `peer.rs:253–301, 637–650`. -/
def dispatch (c : BlockDownload) (message : Ed2kMessage) : BlockDownload :=
  if maxPeerFrame < message.payloadLen job.largeFile then c.fail (.ed2k "frame too large")
  else match message with
    | .malformed text => c.fail (.ed2k text)
    | .queueRank _ => { c with waitingAccept := true }
    | message =>
      -- While the client waits for the slot again, it drops the frame that ends the wait.
      if c.waitingAccept then { c with waitingAccept := false }
      else match message with
        | .sendingPart start endExclusive data => c.takePart job start endExclusive data
        | .compressedPart start packed =>
          match decompressBounded job packed (blockSize + 1024) with
          | .error e => c.fail e
          | .ok data => c.takePart job start (start + data.length) data
        | .outOfPartReqs => c.fail (.ed2k "peer out of part requests")
        | .noFile => c.fail (.ed2k "peer does not have this file")
        | _ => c

/-- A frame is read: dispatch it, end the loop if the block is covered, else go round again.
`peer.rs:253–306`. -/
def read (c : BlockDownload) (message : Ed2kMessage) : BlockDownload × Option (List PartRange) :=
  let c := c.dispatch job message
  if c.result.isSome || c.waitingAccept then (c, none)
  else if receivedCovers c.received (job.blockEnd - job.blockStart) then (c.complete job, none)
  else c.turn job

end BlockDownload

/-- The peer: requests it has not begun to answer, what is left of the one it answers, and
whether the first range of it is still untouched. -/
structure PeerAnswers where
  todo : List (List PartRange)
  doing : List PartRange
  fresh : Bool

/-- How an honest peer goes on: the next request, a piece of the next range, or all of it
packed. -/
inductive PeerStep where
  | next
  | part (len : Nat)
  | packed (bytes : List UInt8)
deriving DecidableEq

/-- The bytes of a range of the file. -/
def slice (content : List UInt8) (start endExclusive : Nat) : List UInt8 :=
  (content.drop start).take (endExclusive - start)

/-- An honest step of the peer with the frame it sends; a step that honesty excludes sends
nothing. -/
def PeerAnswers.step (p : PeerAnswers) (content : List UInt8)
    (inflate : List UInt8 → Option (List UInt8)) : PeerStep → PeerAnswers × Option Ed2kMessage
  | .next =>
    match p.doing, p.todo with
    | [], request :: todo => ({ todo, doing := request, fresh := true }, none)
    | _, _ => (p, none)
  | .part len =>
    match p.doing with
    | [] => (p, none)
    | range :: rest =>
      if 0 < len ∧ range.start + len ≤ range.endExclusive then
        let stop := range.start + len
        let message := .sendingPart range.start stop (slice content range.start stop)
        if stop = range.endExclusive then ({ p with doing := rest, fresh := true }, some message)
        else
          ({ p with doing := { range with start := stop } :: rest, fresh := false }, some message)
      else (p, none)
  | .packed bytes =>
    match p.doing with
    | [] => (p, none)
    | range :: rest =>
      if p.fresh = true ∧ inflate bytes = some (slice content range.start range.endExclusive) then
        ({ p with doing := rest, fresh := true }, some (.compressedPart range.start bytes))
      else (p, none)

/-- The download, the peer and the frames between them. -/
structure BlockExchange where
  client : BlockDownload
  peer : PeerAnswers
  wire : List Ed2kMessage

/-- What happens next: the peer goes on, the client reads a frame, or the download is
interrupted by a stall, a closed connection, the disk or the user. -/
inductive ExchangeOp where
  | peer (step : PeerStep)
  | read
  | stall
  | io
  | cancel
deriving DecidableEq

namespace BlockExchange

variable (job : BlockJob) (content : List UInt8)

/-- A request reaches the peer. -/
def send (s : BlockExchange) (client : BlockDownload) (request : Option (List PartRange)) :
    BlockExchange :=
  { s with client, peer := { s.peer with todo := s.peer.todo ++ request.toList } }

/-- The exchange after the first request. -/
def new : BlockExchange :=
  let (client, request) := (BlockDownload.new job).turn job
  { client, peer := { todo := request.toList, doing := [], fresh := true }, wire := [] }

/-- The download ends with an error, if it has not ended. -/
def interrupt (s : BlockExchange) (e : DownloadError) : BlockExchange :=
  if s.client.result.isSome then s else { s with client := s.client.fail e }

/-- One step. -/
def step (s : BlockExchange) : ExchangeOp → BlockExchange
  | .peer peerStep =>
    let (peer, message) := s.peer.step content job.inflate peerStep
    { s with peer, wire := s.wire ++ message.toList }
  | .read =>
    if s.client.result.isSome then s
    else match s.wire with
      | [] => s
      | message :: wire =>
        let (client, request) := s.client.read job message
        { s with wire }.send client request
  | .stall => s.interrupt (.ed2k "peer stalled")
  | .io => s.interrupt .io
  | .cancel => s.interrupt .cancelled

end BlockExchange

end Ed2k
