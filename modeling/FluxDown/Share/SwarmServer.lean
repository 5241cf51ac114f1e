import FluxDown.Base.KeyedRows
import FluxDown.Base.Run
import FluxDown.Share.Ticket

/-!
# The server of a swarm

Library `Share`. A device serves contents to other devices. A connection is counted when it
comes, may be refused, and ends; its requests are calls of their own. A call is cut into the
sections between its locks and waits, and anything may happen between two of them. What
the disk gives is part of the operation. The number of calls of a connection is not bounded here.
-/

namespace Share

open Base

variable {p : Primitives}

/-- Connections served at the same time (`src/native/share/src/swarm/serve.rs:36`). -/
def maxConnections : Nat := 32

/-- Chunks sent at the same time (`serve.rs:40`). -/
def maxConcurrentGets : Nat := 16

/-- Contents granted to a connection (`serve.rs:42`). -/
def maxGrants : Nat := 4096

/-- Connections that can be reserved (`serve.rs:60`). -/
def maxPriorityReserved : Nat := 16

/-! ## The budget of a day -/

/-- What was provided on a day (`serve.rs:62–70`). -/
structure DailyBudget where
  day : Int
  used : Nat
  /-- Zero where there is none. -/
  cap : Nat
  offsetSecs : Int
deriving DecidableEq

namespace DailyBudget

/-- The local day of a time (`serve.rs:73–76`). -/
def dayOf (budget : DailyBudget) (nowUnix : Nat) : Int :=
  saturatingAdd (min (nowUnix : Int) (2 ^ 63 - 1)) budget.offsetSecs / 86400

/-- A new day begins with nothing used (`serve.rs:78–85`). -/
def roll (budget : DailyBudget) (nowUnix : Nat) : DailyBudget :=
  if budget.dayOf nowUnix = budget.day then budget
  else { budget with day := budget.dayOf nowUnix, used := 0 }

/-- Take bytes of the day unless it is used up (`serve.rs:88–98`). -/
def tryTake (budget : DailyBudget) (nowUnix len : Nat) : DailyBudget × Bool :=
  let rolled := budget.roll nowUnix
  if 0 < rolled.cap ∧ rolled.cap ≤ rolled.used then (rolled, false)
  else ({ rolled with used := min (rolled.used + len) maxU64 }, true)

end DailyBudget

/-! ## Contents -/

/-- Where a content comes from (`src/native/share/src/swarm/content.rs:10–28`). -/
inductive ContentSource where
  | complete (path : String) (mtimeMs : Int)
  | incomplete (path : String) (file : ShareFile) (held : Nat)
deriving DecidableEq

/-- A content (`content.rs:31–37`); the set of an incomplete one is shared with its download and
given by its number. -/
structure ContentEntry where
  size : Nat
  source : ContentSource
deriving DecidableEq

/-- All of the content is on the disk. -/
def ContentEntry.isComplete (entry : ContentEntry) : Bool :=
  match entry.source with
  | .complete .. => true
  | .incomplete .. => false

/-- Contents by their roots. -/
abbrev ContentRegistry := Hash → Option ContentEntry

/-- A complete content is preferred, and else the first one (`content.rs:59–78`). -/
def ContentRegistry.replaceAll (entries : List (Hash × ContentEntry)) : ContentRegistry :=
  entries.foldl (fun next (root, entry) ↦ match next root with
    | none => Function.update next root (some entry)
    | some existing =>
      if entry.isComplete && !existing.isComplete then Function.update next root (some entry)
      else next) fun _ ↦ none

/-! ## Messages -/

/-- A request (`src/native/share/src/swarm/wire.rs:14–36`). -/
inductive SwarmRequest where
  | grant (ticket : String)
  | held (root : String)
  | get (root : String) (chunk : Nat)

/-- Status of a reply (`wire.rs:39–67`). -/
inductive SwarmStatus where
  | ok | badTicket | peerMismatch | expired | notGranted | notFound | missing | changed | busy
  | badRequest | internal | unknown
deriving DecidableEq

/-- The note of a reply. -/
inductive ReplyMessage where
  | empty
  | ticket (error : TicketError)
  | text (text : String)
deriving DecidableEq

/-- A reply (`wire.rs:69–87`). -/
structure SwarmReply where
  status : SwarmStatus
  size : Nat
  complete : Bool
  len : Nat
  message : ReplyMessage
deriving DecidableEq

/-- A reply that only has a status (`wire.rs:90–99`). -/
def SwarmReply.ofStatus (status : SwarmStatus) : SwarmReply := ⟨status, 0, false, 0, .empty⟩

/-! ## The server -/

/-- Where a connection stands. -/
inductive ConnPhase where
  /-- It was counted when so many were there. -/
  | counted (before : Nat)
  | serving
  | closed
deriving DecidableEq

/-- A connection (`serve.rs:241–254`). -/
structure ConnCtx (p : Primitives) where
  peer : p.PublicKey
  phase : ConnPhase
  /-- Granted roots with the times at which their tickets expire. -/
  grants : List (Hash × Nat)
  /-- The share of the session. -/
  session : Option String
  reservedSlot : Bool

/-- What is asked of a granted content. -/
inductive Query where
  | held
  | get (chunk : Nat)
deriving DecidableEq

/-- Where a chunk lies in its content. -/
structure Piece where
  chunk : Nat
  start : Nat
  len : Nat
deriving DecidableEq

/-- Where a call stands. -/
inductive CallPhase where
  /-- The ticket was parsed and the clock read. -/
  | parsed (ticket : Ticket) (now : Nat)
  | verified (payload : TicketPayload) (root : Hash)
  | found (payload : TicketPayload) (root : Hash) (entry : ContentEntry)
  | sessionOpen (payload : TicketPayload) (root : Hash) (entry : ContentEntry)
  | asked (query : Query) (root : Hash)
  /-- The expiry of the grant was read. -/
  | granted (query : Query) (root : Hash) (exp : Nat)
  /-- The grant had not expired. -/
  | timely (query : Query) (root : Hash)
  | located (root : Hash) (entry : ContentEntry) (piece : Piece)
  /-- The bytes were taken from the budget; the call waits for a permit. -/
  | admitted (root : Hash) (entry : ContentEntry) (piece : Piece)
  | holding (root : Hash) (entry : ContentEntry) (piece : Piece)
  /-- The reply was sent, the data follows. -/
  | pumping (root : Hash) (entry : ContentEntry) (piece : Piece)
  /-- The set holds the chunk; it is read from the disk. -/
  | reading (root : Hash) (entry : ContentEntry) (file : ShareFile) (held : Nat) (piece : Piece)
  | replied (reply : SwarmReply)
  | abandoned
deriving DecidableEq

/-- The call holds a permit. -/
def CallPhase.holdsPermit : CallPhase → Bool
  | .holding .. | .pumping .. | .reading .. => true
  | _ => false

/-- A request of a connection. -/
structure Call where
  conn : Nat
  phase : CallPhase
deriving DecidableEq

/-- Data that answers a call. -/
inductive Answer where
  | bitmap (bytes : List UInt8)
  | stored (chunk : Nat) (data : List UInt8)
  | checked (chunk : Nat) (data : List UInt8)
deriving DecidableEq

/-- What happened, for statements. -/
inductive ServeEvent (p : Primitives) where
  /-- A ticket of the connection was accepted. -/
  | accepted (conn : Nat) (ring : KeyRing p) (ticket : Ticket) (now : Nat) (payload : TicketPayload)
  /-- The connection was granted a content. -/
  | granted (conn : Nat) (root : Hash) (payload : TicketPayload)
  /-- The grant of a call had not expired. -/
  | timely (conn call : Nat) (root : Hash) (exp now : Nat)
  /-- Bytes were taken from the budget of a day. -/
  | admitted (day : Int) (len : Nat)
  /-- A call was answered with data of a content. -/
  | answered (conn call : Nat) (root : Hash) (entry : ContentEntry) (answer : Answer) (now : Nat)

/-- The state of the server and of the device around it (`serve.rs:101–116`). -/
structure SwarmServer (p : Primitives) where
  clock : Nat
  keys : KeyRing p
  content : ContentRegistry
  /-- The sets of incomplete contents. -/
  sets : List ChunkSet
  connections : Nat
  /-- Free permits. -/
  gets : Nat
  priorityReserved : Nat
  daily : DailyBudget
  conns : List (ConnCtx p)
  calls : List Call
  history : List (ServeEvent p)

namespace SwarmServer

/-- A server (`serve.rs:125–149`). -/
def new (clock : Nat) (keys : KeyRing p) (content : ContentRegistry) (sets : List ChunkSet) :
    SwarmServer p where
  clock := clock
  keys := keys
  content := content
  sets := sets
  connections := 0
  gets := maxConcurrentGets
  priorityReserved := 0
  daily := ⟨0, 0, 0, 0⟩
  conns := []
  calls := []
  history := []

/-- Reserve connections for tickets with priority (`serve.rs:157–163`). -/
def setPriorityReserved (s : SwarmServer p) (n : Nat) : SwarmServer p :=
  { s with priorityReserved := min n maxPriorityReserved }

/-- Set the cap and the offset of the day (`serve.rs:165–175`). -/
def setDailyCap (s : SwarmServer p) (cap : Nat) (utcOffsetSecs : Int) : SwarmServer p :=
  { s with daily := { s.daily with cap := cap, offsetSecs := utcOffsetSecs }.roll s.clock }

/-- The day and the bytes provided (`serve.rs:177–186`). -/
def dailyUsage (s : SwarmServer p) : SwarmServer p := { s with daily := s.daily.roll s.clock }

/-- Bytes that an earlier process provided on the day (`serve.rs:188–199`). -/
def restoreDaily (s : SwarmServer p) (day : Int) (used : Nat) : SwarmServer p :=
  let daily := s.daily.roll s.clock
  { s with daily := if daily.day = day then { daily with used := max daily.used used } else daily }

/-- Note what happened. -/
def log (s : SwarmServer p) (event : ServeEvent p) : SwarmServer p :=
  { s with history := s.history ++ [event] }

/-- A connection is changed. -/
def updateConn (s : SwarmServer p) (n : Nat) (f : ConnCtx p → ConnCtx p) : SwarmServer p :=
  { s with conns := s.conns.modify n f }

/-! ### Connections -/

/-- A connection is counted (`serve.rs:302`). -/
def connect (s : SwarmServer p) (peer : p.PublicKey) : SwarmServer p :=
  { s with
    connections := s.connections + 1
    conns := s.conns ++ [⟨peer, .counted s.connections, [], none, false⟩] }

/-- A counted connection is refused or served (`serve.rs:303–319`). -/
def seat (s : SwarmServer p) (n : Nat) : SwarmServer p :=
  match s.conns[n]? with
  | some ⟨_, .counted before, _, _, _⟩ =>
    if maxConnections ≤ before then
      { s.updateConn n fun conn ↦ { conn with phase := .closed } with
        connections := s.connections - 1 }
    else
      s.updateConn n fun conn ↦
        { conn with
          phase := .serving
          reservedSlot := decide (maxConnections - s.priorityReserved ≤ before) }
  | _ => s

/-- A connection ends (`serve.rs:231–238, 325–372`). -/
def finish (s : SwarmServer p) (n : Nat) : SwarmServer p :=
  match s.conns[n]? with
  | some ⟨_, .serving, _, _, _⟩ =>
    { s.updateConn n fun conn ↦ { conn with phase := .closed } with
      connections := s.connections - 1 }
  | _ => s

/-! ### Calls -/

/-- A call moves on; its permit is given back when it ends. -/
def setPhase (s : SwarmServer p) (n : Nat) (old new : CallPhase) : SwarmServer p :=
  { s with
    calls := s.calls.modify n fun call ↦ { call with phase := new }
    gets := if old.holdsPermit && !new.holdsPermit then s.gets + 1 else s.gets }

/-- Refusal of a grant (`serve.rs:427–430`). -/
def bad (status : SwarmStatus) (message : ReplyMessage) : CallPhase :=
  .replied { SwarmReply.ofStatus status with message := message }

/-- A request was read; a ticket is parsed and the clock read for its check, a root is parsed
(`serve.rs:375–423, 431–434, 545`). -/
def request (s : SwarmServer p) (n : Nat) (request : SwarmRequest) : SwarmServer p :=
  match s.conns[n]? with
  | some ⟨_, .serving, _, _, _⟩ =>
    let ofRoot (root : String) (query : Query) : CallPhase :=
      match parseHash root with
      | none => .replied (SwarmReply.ofStatus .badRequest)
      | some root => .asked query root
    let phase : CallPhase := match request with
      | .grant ticket => match parseTicket p ticket with
        | .error error => bad .badTicket (.ticket error)
        | .ok ticket => .parsed ticket s.clock
      | .held root => ofRoot root .held
      | .get root chunk => ofRoot root (.get chunk)
    { s with calls := s.calls ++ [⟨n, phase⟩] }
  | _ => s

/-- The status that a refused ticket leads to (`serve.rs:447–452`). -/
def statusOf : TicketError → SwarmStatus
  | .wrongPeer => .peerMismatch
  | .expired => .expired
  | _ => .badTicket

/-- Where a chunk lies (`serve.rs:573–578`). -/
def pieceOf (size chunk : Nat) : Option Piece :=
  if chunk * chunkSize < size then
    some ⟨chunk, chunk * chunkSize,
      min (min (chunk * chunkSize + chunkSize) maxU64) size - chunk * chunkSize⟩
  else none

/-- What the disk gives. -/
inductive Outcome where
  | go
  /-- The file cannot be opened. -/
  | openFailed (notFound : Bool)
  /-- The file was opened: whether it is a regular one, its length and its time, where it has
  one. -/
  | opened (isFile : Bool) (len : Nat) (mtimeMs : Option Int)
  /-- Bytes sent from the file, all of them or not. -/
  | pumped (data : List UInt8) (complete : Bool)
  /-- The bytes of a chunk. -/
  | read (data : Option (List UInt8))

/-- The reply that goes before data. -/
def dataReply (size len : Nat) (complete : Bool) : SwarmReply :=
  { SwarmReply.ofStatus .ok with size := size, complete := complete, len := len }

/-- The next section of a grant (`serve.rs:435–487`). -/
def advanceGrant (s : SwarmServer p) (n : Nat) (conn : Nat) (ctx : ConnCtx p) :
    CallPhase → SwarmServer p
  | .parsed ticket now =>
    let old := CallPhase.parsed ticket now
    match verifyTicket s.keys ticket ⟨now, none, ctx.peer, [scopeSwarm]⟩ with
    | .error error => s.setPhase n old (bad (statusOf error) (.ticket error))
    | .ok payload =>
      let s := s.log (.accepted conn s.keys ticket now payload)
      match payload.root.bind parseHash with
      | none => s.setPhase n old (bad .badTicket (.text "ticket carries no valid root"))
      | some root => s.setPhase n old (.verified payload root)
  | .verified payload root =>
    let old := CallPhase.verified payload root
    match s.content root with
    | none => s.setPhase n old (bad .notFound (.text "content is not available on this device"))
    | some entry =>
      if ctx.reservedSlot && payload.pri == 0 then
        s.setPhase n old (bad .busy (.text "reserved slots only serve priority tickets"))
      else s.setPhase n old (.found payload root entry)
  | .found payload root entry =>
    (s.updateConn conn fun ctx ↦ { ctx with session := ctx.session.or (some payload.sid) }).setPhase
      n (.found payload root entry) (.sessionOpen payload root entry)
  | .sessionOpen payload root entry =>
    let old := CallPhase.sessionOpen payload root entry
    if maxGrants ≤ ctx.grants.length ∧ lastRow? Prod.fst root ctx.grants = none then
      s.setPhase n old (bad .badRequest (.text "too many grants"))
    else
      ((s.updateConn conn fun ctx ↦
        { ctx with grants := upsertRow Prod.fst (root, payload.exp) ctx.grants }).log
          (.granted conn root payload)).setPhase n old
            (.replied (dataReply entry.size 0 entry.isComplete))
  | _ => s

/-- A call was authorised for a content (`serve.rs:398–422, 562, 565–578, 687–716`). -/
def serveQuery (s : SwarmServer p) (n : Nat) (conn : Nat) (ctx : ConnCtx p) (query : Query)
    (root : Hash) (entry : ContentEntry) : SwarmServer p :=
  let old := CallPhase.timely query root
  match query with
  | .held =>
    match entry.source with
    | .complete .. =>
      (s.log (.answered conn n root entry (.bitmap []) s.clock)).setPhase n old
        (.replied (dataReply entry.size 0 true))
    | .incomplete _ _ held =>
      let bytes := (s.sets[held]?.map ChunkSet.toBytes).getD []
      (s.log (.answered conn n root entry (.bitmap bytes) s.clock)).setPhase n old
        (.replied (dataReply entry.size bytes.length false))
  | .get chunk =>
    if ctx.session.isNone then s.setPhase n old (.replied (SwarmReply.ofStatus .internal))
    else match pieceOf entry.size chunk with
      | none => s.setPhase n old (.replied (SwarmReply.ofStatus .badRequest))
      | some piece => s.setPhase n old (.located root entry piece)

/-- The next section of a call about a granted content (`serve.rs:539–563, 579–684`). -/
def advanceQuery (s : SwarmServer p) (n : Nat) (conn : Nat) (ctx : ConnCtx p) (outcome : Outcome) :
    CallPhase → SwarmServer p
  | .asked query root =>
    match lastRow? Prod.fst root ctx.grants with
    | none => s.setPhase n (.asked query root) (.replied (SwarmReply.ofStatus .notGranted))
    | some (_, exp) => s.setPhase n (.asked query root) (.granted query root exp)
  | .granted query root exp =>
    if exp ≤ s.clock then
      s.setPhase n (.granted query root exp) (.replied (SwarmReply.ofStatus .expired))
    else
      (s.log (.timely conn n root exp s.clock)).setPhase n (.granted query root exp)
        (.timely query root)
  | .timely query root =>
    match s.content root with
    | none => s.setPhase n (.timely query root) (.replied (SwarmReply.ofStatus .notFound))
    | some entry => s.serveQuery n conn ctx query root entry
  | .located root entry piece =>
    let (daily, taken) := s.daily.tryTake s.clock piece.len
    if taken then
      ({ s with daily := daily }.log (.admitted daily.day piece.len)).setPhase n
        (.located root entry piece) (.admitted root entry piece)
    else
      { s with daily := daily }.setPhase n (.located root entry piece)
        (.replied (SwarmReply.ofStatus .busy))
  | .admitted root entry piece =>
    if s.gets = 0 then s
    else
      { s with gets := s.gets - 1 }.setPhase n (.admitted root entry piece)
        (.holding root entry piece)
  | .holding root entry piece =>
    let old := CallPhase.holding root entry piece
    match entry.source, outcome with
    | .complete .., .openFailed notFound =>
      s.setPhase n old (.replied (SwarmReply.ofStatus (if notFound then .changed else .internal)))
    | .complete _ mtimeMs, .opened isFile len time =>
      if !isFile || len != entry.size then
        s.setPhase n old (.replied (SwarmReply.ofStatus .changed))
      else match time with
        | none => s.setPhase n old (.replied (SwarmReply.ofStatus .internal))
        | some time =>
          if time ≠ mtimeMs then s.setPhase n old (.replied (SwarmReply.ofStatus .changed))
          else s.setPhase n old (.pumping root entry piece)
    | .incomplete _ file held, .go =>
      if s.sets[held]?.any fun set ↦ set.contains piece.chunk then
        s.setPhase n old (.reading root entry file held piece)
      else s.setPhase n old (.replied (SwarmReply.ofStatus .missing))
    | _, _ => s
  | .pumping root entry piece =>
    match outcome with
    | .pumped data complete =>
      (s.log (.answered conn n root entry (.stored piece.chunk data) s.clock)).setPhase n
        (.pumping root entry piece)
        (if complete then .replied (dataReply entry.size piece.len true) else .abandoned)
    | _ => s
  | .reading root entry file held piece =>
    let old := CallPhase.reading root entry file held piece
    match outcome with
    | .read none => s.setPhase n old (.replied (SwarmReply.ofStatus .missing))
    | .read (some data) =>
      match verifyChunk p.blake3 file piece.chunk data with
      | .error _ => s.setPhase n old (.replied (SwarmReply.ofStatus .missing))
      | .ok () =>
        (s.log (.answered conn n root entry (.checked piece.chunk data) s.clock)).setPhase n
          old (.replied (dataReply entry.size piece.len false))
    | _ => s
  | _ => s

/-- A call takes its next section. -/
def advance (s : SwarmServer p) (n : Nat) (outcome : Outcome) : SwarmServer p :=
  match s.calls[n]? with
  | none => s
  | some call => match s.conns[call.conn]? with
    | none => s
    | some ctx => match call.phase with
      | .parsed .. | .verified .. | .found .. | .sessionOpen .. =>
        s.advanceGrant n call.conn ctx call.phase
      | _ => s.advanceQuery n call.conn ctx outcome call.phase

/-- A call times out or is aborted (`serve.rs:356–368, 372`). -/
def abandon (s : SwarmServer p) (n : Nat) : SwarmServer p :=
  match s.calls[n]? with
  | none => s
  | some call => s.setPhase n call.phase .abandoned

end SwarmServer

/-- What happens at a device that serves. -/
inductive ServeOp (p : Primitives) where
  | setClock (now : Nat)
  | replaceKeys (keys : KeyRing p)
  | replaceContent (entries : List (Hash × ContentEntry))
  /-- A download begins. -/
  | addSet (len : Nat)
  /-- A chunk of a download was verified and stored. -/
  | insertChunk (held chunk : Nat)
  | setPriorityReserved (n : Nat)
  | setDailyCap (cap : Nat) (utcOffsetSecs : Int)
  | dailyUsage
  | restoreDaily (day : Int) (used : Nat)
  | connect (peer : p.PublicKey)
  | seat (conn : Nat)
  | finish (conn : Nat)
  | request (conn : Nat) (request : SwarmRequest)
  | advance (call : Nat) (outcome : SwarmServer.Outcome)
  | abandon (call : Nat)

/-- One step of the device. -/
def SwarmServer.step (s : SwarmServer p) : ServeOp p → SwarmServer p
  | .setClock now => { s with clock := now }
  | .replaceKeys keys => { s with keys := keys }
  | .replaceContent entries => { s with content := ContentRegistry.replaceAll entries }
  | .addSet len => { s with sets := s.sets ++ [ChunkSet.new len] }
  | .insertChunk held chunk =>
    { s with sets := s.sets.modify held fun set ↦ (set.insert chunk).1 }
  | .setPriorityReserved n => s.setPriorityReserved n
  | .setDailyCap cap utcOffsetSecs => s.setDailyCap cap utcOffsetSecs
  | .dailyUsage => s.dailyUsage
  | .restoreDaily day used => s.restoreDaily day used
  | .connect peer => s.connect peer
  | .seat conn => s.seat conn
  | .finish conn => s.finish conn
  | .request conn request => s.request conn request
  | .advance call outcome => s.advance call outcome
  | .abandon call => s.abandon call

end Share
