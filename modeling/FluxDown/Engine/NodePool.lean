import FluxDown.Base.Indexed
import FluxDown.Base.Run
import FluxDown.Engine.PathScheduler

/-!
# Pool of nodes

Library `Engine`. The connections of one task are leased from a pool of nodes: the client of the
task itself, pinned addresses, other paths and links of other network cards. A node without a
measured rate is explored by one connection at a time; the others are chosen by their estimates.
Rates are numbers such as `f64`, of which nothing is assumed.
-/

namespace Engine.Cdn

open Base

/-- The operations on rates, those of `f64`. -/
class Rate (F : Type) extends Add F, Sub F, Mul F, Div F, BEq F, NatCast F, OfScientific F where
  le : F → F → Bool
  lt : F → F → Bool
  isFinite : F → Bool
  totalLE : F → F → Bool

instance : Rate Float where
  natCast := Float.ofNat
  le a b := decide (a ≤ b)
  lt a b := decide (a < b)
  isFinite := Float.isFinite
  totalLE a b := (PathScheduler.totalCmp a b).isLE

/-- Where the proxy of a path comes from (`src/native/engine/src/auto_proxy.rs`). -/
inductive CandidateSource
  | manualFields
  | system
deriving DecidableEq

/-- A path of a task (`auto_proxy.rs:119–129`). -/
inductive RoutePath
  | direct
  | proxy (source : CandidateSource)
  | link (index : Nat)
deriving DecidableEq

/-- A link of another network card (`auto_proxy.rs:143–146`). -/
def RoutePath.isLink : RoutePath → Bool
  | .link _ => true
  | _ => false

/-- A binding to a network card, known by its index. -/
structure LinkBinding where
  index : Nat
deriving DecidableEq

/-- A node (`src/native/engine/src/cdn/node_pool.rs:79–118`). -/
structure NodeSlot (F Ip Client : Type) where
  ip : Option Ip
  route : RoutePath
  client : Option Client
  ewmaBps : F
  measuredWindows : Nat := 0
  cold : Bool := false
  evidence : Bool := false
  everLeased : Bool := false
  failStreak : Nat := 0
  kicked : Bool := false
  outstanding : Nat := 0
  link : Option LinkBinding := none
  windowConns : Nat := 0

/-- A connection in flight (`node_pool.rs:156–168`). -/
structure LiveConn where
  leaseId : Nat
  nodeId : Nat
  segIndex : Int
  startDownloaded : Int
  cancelled : Bool

/-- A lease, which its holder drops once (`node_pool.rs:243–251`). -/
structure NodeLease (Ip Client : Type) where
  nodeId : Nat
  leaseId : Nat
  client : Client
  ip : Option Ip
  route : RoutePath
  link : Option LinkBinding

/-- A request for a lease (`node_pool.rs:222–236`). -/
structure LeaseRequest where
  segIndex : Int
  startDownloaded : Int
  bytes : Int
  allowAlternates : Bool

/-- The outcome of a segment: an error is a difference of the validators or not, and one of the
transport or not. -/
inductive Outcome
  | ok
  | error (validatorMismatch transport : Bool)

/-- The pool, with the leases that are held (`node_pool.rs:170–220`). -/
structure NodePool (F Ip Client : Type) where
  slots : List (NodeSlot F Ip Client)
  explore : Bool := false
  nextLeaseId : Nat := 1
  live : List LiveConn := []
  noAggregateRecorded : Bool := false
  validatorKicked : List RoutePath := []
  pathFailures : List RoutePath := []
  pathFailuresNoted : List RoutePath := []
  held : List (NodeLease Ip Client) := []

/-- Failures in a row after which a node is kicked (`node_pool.rs:64`). -/
def kickStreak : Nat := 3

/-- The fewest bytes of a segment whose rate counts (`node_pool.rs:61`). -/
def minSampleBytes : Nat := 256 * 1024

/-- The fewest bytes to explore with (`src/native/engine/src/path_scheduler.rs:44`). -/
def exploreMinPiece : Int := 1024 * 1024

section Estimates

variable {F Ip Client : Type} [Rate F]

/-- The estimate without a prior (`node_pool.rs:71`). -/
def defaultEwmaBps : F := 4.0 * 1024.0 * 1024.0

def powi (x : F) : Nat → F
  | 0 => 1.0
  | n + 1 => powi x n * x

/-- A new node (`node_pool.rs:121–146`). -/
def NodeSlot.new (ip : Option Ip) (route : RoutePath) (client : Option Client) (prior : Option F) :
    NodeSlot F Ip Client :=
  { ip, route, client, ewmaBps := prior.getD defaultEwmaBps }

/-- The estimate, halved for each failure (`node_pool.rs:148–150`). -/
def NodeSlot.score (slot : NodeSlot F Ip Client) : F :=
  slot.ewmaBps * powi 0.5 (min slot.failStreak 60)

/-- The capacity of all connections of the last window (`node_pool.rs:152–155`). -/
def NodeSlot.capacity (slot : NodeSlot F Ip Client) : F :=
  slot.score * ((max slot.windowConns 1 : Nat) : F)

/-- The median, with the order of all values (`path_scheduler.rs:68–79`). -/
def median (values : List F) : Option F :=
  let values := values.mergeSort Rate.totalLE
  let mid := values.length / 2
  if values.length % 2 = 0 then
    match values[mid - 1]?, values[mid]? with
    | some a, some b => some ((a + b) / 2.0)
    | _, _ => none
  else values[mid]?

/-- A new sample is blended into the estimate (`path_scheduler.rs:84–90`). -/
def blendRate (current sample : F) (firstMeasurement : Bool) : F :=
  if firstMeasurement then sample else (1.0 - 0.5) * current + 0.5 * sample

/-- A rate that competes with the best (`path_scheduler.rs:94–96`). -/
def isCompetitive (score best : F) : Bool := Rate.le best 0.0 || Rate.le (best * 0.5) score

/-- What one more connection of a link is worth (`path_scheduler.rs:102–107`). -/
def linkMarginal (capacityBps : F) (outstanding : Nat) : F :=
  if Rate.isFinite capacityBps && Rate.lt 0.0 capacityBps then
    capacityBps / ((outstanding + 1 : Nat) : F)
  else 0.0

end Estimates

section Choice

variable {F Ip Client : Type} [Rate F]

/-- The route of the first node. -/
def startRoute (slots : List (NodeSlot F Ip Client)) : RoutePath :=
  match slots with
  | [] => .direct
  | sys :: _ => sys.route

/-- The better of two nodes with their positions (`node_pool.rs:855–861`). -/
def better (a b : NodeSlot F Ip Client × Nat) : Bool :=
  Rate.lt b.1.score a.1.score ||
    (a.1.score == b.1.score &&
      (a.1.outstanding < b.1.outstanding ||
        (a.1.outstanding = b.1.outstanding && a.2 < b.2)))

/-- Choose among the nodes that share the bottleneck (`node_pool.rs:828–867`). -/
def pickShared (known : List (NodeSlot F Ip Client × Nat)) : Nat :=
  let best := known.foldl (fun acc node ↦ if Rate.lt acc node.1.ewmaBps then node.1.ewmaBps else acc)
    (0.0 : F)
  let competitive := known.filter fun node ↦ isCompetitive node.1.ewmaBps best
  match competitive with
  | [] => 0
  | first :: _ =>
    let totalOutstanding := (competitive.map fun node ↦ node.1.outstanding).sum
    let cap := (totalOutstanding + 1 + (competitive.length - 1)) / competitive.length
    match competitive.filter fun node ↦ node.1.outstanding < cap with
    | [] => (competitive.foldl (fun chosen node ↦ if better node chosen then node else chosen) first).2
    | head :: rest =>
      (rest.foldl (fun chosen node ↦ if better node chosen then node else chosen) head).2

/-- Choose between the shared choice and the links (`node_pool.rs:869–906`). -/
def pickAcrossLinks (sharedChoice : Nat) (primaryCapacity : F) (primaryOutstanding : Nat)
    (links : List (NodeSlot F Ip Client × Nat)) (explore : Bool) : Nat :=
  let totalCapacity := primaryCapacity +
    links.foldl (fun sum node ↦ sum + node.1.capacity) (0.0 : F)
  let idle := if explore then
      links.find? fun node ↦
        node.1.outstanding = 0 && Rate.le (0.05 * totalCapacity) node.1.capacity
    else none
  match idle with
  | some node => node.2
  | none =>
    (links.foldl (fun (chosen, best) node ↦
        let marginal := linkMarginal node.1.capacity node.1.outstanding
        if Rate.lt best marginal then (node.2, marginal) else (chosen, best))
      (sharedChoice, linkMarginal primaryCapacity primaryOutstanding)).1

/-- The nodes a lease may use, with their positions (`node_pool.rs:786–791`). -/
def usable (slots : List (NodeSlot F Ip Client)) (allowAlternates : Bool) :
    List (NodeSlot F Ip Client × Nat) :=
  slots.zipIdx.filter fun node ↦
    node.2 = 0 ||
      (!node.1.kicked && (allowAlternates || node.1.route = startRoute slots))

/-- Choose a node (`node_pool.rs:777–826`). -/
def pick (slots : List (NodeSlot F Ip Client)) (allowAlternates explore : Bool) : Nat :=
  let nodes := usable slots allowAlternates
  let coldNode := if explore then
      nodes.find? fun node ↦ node.1.cold && node.1.outstanding = 0
    else none
  match coldNode with
  | some node => node.2
  | none =>
    let measured := nodes.filter fun node ↦ !node.1.cold
    let links := measured.filter fun node ↦ node.1.route.isLink
    let shared := measured.filter fun node ↦ !node.1.route.isLink
    let primaryCapacity := shared.foldl (fun sum node ↦ sum + node.1.capacity) (0.0 : F)
    let primaryOutstanding := (shared.map fun node ↦ node.1.outstanding).sum
    let chosen := pickShared shared
    if links.isEmpty then chosen
    else pickAcrossLinks chosen primaryCapacity primaryOutstanding links explore

end Choice

section Operations

variable {F Ip Client : Type}

/-- One more connection of a node (`node_pool.rs:572–607`). -/
def NodeSlot.connect (client : Client) (slot : NodeSlot F Ip Client) : NodeSlot F Ip Client :=
  { slot with client := some client, outstanding := slot.outstanding + 1, everLeased := true }

/-- A lease adds a connection. -/
@[simp] theorem NodeSlot.connect_outstanding (client : Client) (slot : NodeSlot F Ip Client) :
    (slot.connect client).outstanding = slot.outstanding + 1 := rfl

/-- A lease kicks no node. -/
@[simp] theorem NodeSlot.connect_kicked (client : Client) (slot : NodeSlot F Ip Client) :
    (slot.connect client).kicked = slot.kicked := rfl

/-- A lease leaves a node as cold as it was. -/
@[simp] theorem NodeSlot.connect_cold (client : Client) (slot : NodeSlot F Ip Client) :
    (slot.connect client).cold = slot.cold := rfl

/-- A lease keeps the route. -/
@[simp] theorem NodeSlot.connect_route (client : Client) (slot : NodeSlot F Ip Client) :
    (slot.connect client).route = slot.route := rfl

namespace NodePool

/-- Change one node. -/
def onSlot (pool : NodePool F Ip Client) (nodeId : Nat)
    (f : NodeSlot F Ip Client → NodeSlot F Ip Client) : NodePool F Ip Client :=
  { pool with slots := pool.slots.modify nodeId f }

/-- Remember that more pinned nodes are kicked than alive (`node_pool.rs:1235–1268`). -/
def checkBreaker (pool : NodePool F Ip Client) : NodePool F Ip Client :=
  let kicked := pool.slots.countP fun slot ↦ slot.ip.isSome && slot.kicked
  let alive := pool.slots.countP fun slot ↦ slot.ip.isSome && !slot.kicked
  if alive < kicked then { pool with noAggregateRecorded := true } else pool

/-- Remember a failure of a path once (`node_pool.rs:190–200`). -/
def notePathFailure (pool : NodePool F Ip Client) (route : RoutePath) : NodePool F Ip Client :=
  if route.isLink || route ∈ pool.pathFailuresNoted then pool
  else { pool with pathFailuresNoted := pool.pathFailuresNoted ++ [route],
                   pathFailures := pool.pathFailures ++ [route] }

section Rated

variable [Rate F]

/-- A pool of the client of the task alone (`node_pool.rs:345–355`). -/
def single (client : Client) : NodePool F Ip Client :=
  { slots := [.new none .direct (some client) none] }

/-- A pool with pinned addresses, whose clients are built when they are first chosen
(`node_pool.rs:367–398`). -/
def multi (candidates : List (Ip × Option F)) (taskClient : Client) : NodePool F Ip Client :=
  { slots := .new none .direct (some taskClient) none ::
      candidates.map fun (ip, prior) ↦ .new (some ip) .direct none prior }

/-- Set the path of the task and add other paths (`node_pool.rs:400–423`). -/
def addPaths (pool : NodePool F Ip Client) (sysRoute : RoutePath) (sysPrior : Option F)
    (alternates : List (RoutePath × Client × Option F)) : NodePool F Ip Client :=
  let pool := pool.onSlot 0 fun sys ↦
    { sys with route := sysRoute, ewmaBps := sysPrior.getD sys.ewmaBps }
  { pool with slots := pool.slots ++ alternates.map fun (route, client, prior) ↦
      { NodeSlot.new none route (some client) prior with cold := prior.isNone } }

/-- Add links, each once (`node_pool.rs:425–446`). -/
def addLinks (pool : NodePool F Ip Client) (links : List (LinkBinding × Client)) :
    NodePool F Ip Client :=
  links.foldl (fun pool (link, client) ↦
    if pool.slots.any fun slot ↦ slot.route = .link link.index then pool
    else { pool with slots := pool.slots ++
      [{ NodeSlot.new none (.link link.index) (some client) none with
          cold := true, link := some link }] }) pool

/-- The loop of `leaseFor`: choose a node and build its client if it has none, or kick it where that
fails (`node_pool.rs:570–608`). A call builds the client of a node at most once, as `built` says. -/
def leaseLoop (built : Nat → Option Client) (allowAlternates explore : Bool) :
    Nat → NodePool F Ip Client → Option (Nat × Client × NodePool F Ip Client)
  | 0, _ => none
  | fuel + 1, pool =>
    let chosen := pick pool.slots allowAlternates explore
    match pool.slots[chosen]? with
    | none => none
    | some slot =>
      match slot.client.or (slot.ip.bind fun _ ↦ built chosen) with
      | some client =>
        some (chosen, client, pool.onSlot chosen (NodeSlot.connect client))
      | none =>
        leaseLoop built allowAlternates explore fuel
          (pool.onSlot chosen fun slot ↦ { slot with kicked := true }).checkBreaker

/-- The request may explore (`node_pool.rs:556–558`). -/
def mayExplore (pool : NodePool F Ip Client) (req : LeaseRequest) : Bool :=
  pool.explore && req.allowAlternates && decide (exploreMinPiece ≤ req.bytes)

/-- Lease a node (`node_pool.rs:555–646`). -/
def leaseFor (built : Nat → Option Client) (pool : NodePool F Ip Client) (req : LeaseRequest) :
    Option (NodeLease Ip Client × NodePool F Ip Client) :=
  match leaseLoop built req.allowAlternates (pool.mayExplore req) pool.slots.length pool with
  | none => none
  | some (nodeId, client, pool) =>
    match pool.slots[nodeId]? with
    | none => none
    | some slot =>
      let leaseId := pool.nextLeaseId
      let lease := { nodeId, leaseId, client, ip := slot.ip, route := slot.route, link := slot.link }
      some (lease,
        { pool with
          nextLeaseId := leaseId + 1
          live := pool.live ++ [{ leaseId, nodeId, segIndex := req.segIndex,
                                  startDownloaded := req.startDownloaded, cancelled := false }]
          held := pool.held ++ [lease] })

/-- The holder drops a lease (`node_pool.rs:279–296`). -/
def drop (pool : NodePool F Ip Client) (leaseId : Nat) : NodePool F Ip Client :=
  match pool.held.find? fun lease ↦ lease.leaseId = leaseId with
  | none => pool
  | some lease =>
    { pool.onSlot lease.nodeId fun slot ↦ { slot with outstanding := slot.outstanding - 1 } with
      live := pool.live.eraseP fun conn ↦ conn.leaseId = leaseId
      held := pool.held.eraseP fun lease ↦ lease.leaseId = leaseId }

/-- The rate of a segment, from bytes and nanoseconds. -/
def segmentRate (bytes elapsed : Nat) : F :=
  ((bytes : Nat) : F) /
    (((elapsed / 1000000000 : Nat) : F) + ((elapsed % 1000000000 : Nat) : F) / 1000000000.0)

/-- A segment was downloaded (`node_pool.rs:938–965`). -/
def reportOk (bytes elapsed : Nat) (slot : NodeSlot F Ip Client) : NodeSlot F Ip Client :=
  let slot := { slot with failStreak := 0 }
  if minSampleBytes ≤ bytes ∧ elapsed ≠ 0 ∧ slot.measuredWindows = 0 then
    let rate := segmentRate bytes elapsed
    { slot with
      ewmaBps := if slot.cold then rate else (1.0 - 0.3) * slot.ewmaBps + 0.3 * rate
      cold := false
      evidence := true }
  else slot

/-- The holder of a lease reports a segment (`node_pool.rs:908–1010`). -/
def report (pool : NodePool F Ip Client) (nodeId bytes elapsed : Nat) (outcome : Outcome) :
    NodePool F Ip Client :=
  match pool.slots[nodeId]?, outcome with
  | none, _ => pool
  | some _, .ok => pool.onSlot nodeId (reportOk bytes elapsed)
  | some slot, .error validatorMismatch transport =>
    let pool := pool.onSlot nodeId fun slot ↦ { slot with failStreak := slot.failStreak + 1 }
    if nodeId ≠ 0 ∧ (validatorMismatch ∨ kickStreak ≤ slot.failStreak + 1) then
      let pool := (pool.onSlot nodeId fun slot ↦ { slot with kicked := true }).checkBreaker
      let pool := match validatorMismatch, slot.route with
        | true, .proxy source =>
          { pool with validatorKicked := pool.validatorKicked ++ [.proxy source] }
        | _, _ => pool
      if slot.ip.isNone && slot.link.isNone && transport then pool.notePathFailure slot.route
      else pool
    else pool

/-- The samples of a window reach the estimates (`node_pool.rs:1052–1085`). -/
def observe (pool : NodePool F Ip Client) (samples : List (Nat × F)) (countConns : Bool) :
    NodePool F Ip Client :=
  let samples := samples.filter fun sample ↦ Rate.isFinite sample.2 && Rate.le 0.0 sample.2
  (samples.map Prod.fst).eraseDups.foldl (fun pool nodeId ↦
    let values := (samples.filter fun sample ↦ sample.1 = nodeId).map Prod.snd
    match median values with
    | none => pool
    | some med => pool.onSlot nodeId fun slot ↦
      { slot with
        ewmaBps := blendRate slot.ewmaBps med (slot.measuredWindows = 0)
        measuredWindows := min (slot.measuredWindows + 1) (2 ^ 32 - 1)
        windowConns := if countConns then min values.length (2 ^ 32 - 1) else slot.windowConns
        cold := false
        evidence := true }) pool

/-- Cancel a connection in flight (`node_pool.rs:1023–1036`). -/
def preempt (pool : NodePool F Ip Client) (leaseId : Nat) : NodePool F Ip Client × Bool :=
  ({ pool with live := pool.live.map fun conn ↦
      if conn.leaseId = leaseId then { conn with cancelled := true } else conn },
    pool.live.any fun conn ↦ conn.leaseId = leaseId)

end Rated

end NodePool

/-- How a pool is built. -/
inductive Start (F Ip Client : Type)
  | single (client : Client)
  | multi (candidates : List (Ip × Option F)) (taskClient : Client)

/-- The pool as it is built. -/
def Start.pool [Rate F] : Start F Ip Client → NodePool F Ip Client
  | .single client => .single client
  | .multi candidates taskClient => .multi candidates taskClient

/-- The operations on a pool. A report can come from any lease there was. -/
inductive Operation (F Client : Type)
  | setExplore (enabled : Bool)
  | leaseFor (built : Nat → Option Client) (req : LeaseRequest)
  | drop (leaseId : Nat)
  | report (nodeId bytes elapsed : Nat) (outcome : Outcome)
  | observe (samples : List (Nat × F)) (countConns : Bool)
  | preempt (leaseId : Nat)
  | addPaths (sysRoute : RoutePath) (sysPrior : Option F)
      (alternates : List (RoutePath × Client × Option F))
  | addLinks (links : List (LinkBinding × Client))

/-- One operation. -/
def step [Rate F] (pool : NodePool F Ip Client) : Operation F Client → NodePool F Ip Client
  | .setExplore enabled => { pool with explore := enabled }
  | .leaseFor built req =>
    match pool.leaseFor built req with
    | some (_, pool) => pool
    | none => pool
  | .drop leaseId => pool.drop leaseId
  | .report nodeId bytes elapsed outcome => pool.report nodeId bytes elapsed outcome
  | .observe samples countConns => pool.observe samples countConns
  | .preempt leaseId => (pool.preempt leaseId).1
  | .addPaths sysRoute sysPrior alternates => pool.addPaths sysRoute sysPrior alternates
  | .addLinks links => pool.addLinks links

end Operations

end Engine.Cdn
