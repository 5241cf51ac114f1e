import FluxDown.Base.Run
import FluxDown.Base.SortedMap
import FluxDown.Engine.NodePool

/-!
# What is remembered of the paths to hosts

Library `Engine`. For each host the rates and failures of its paths are kept in a table, and after
each change a snapshot of the table is written to the database by a task of its own. Writes are
numbered, and a write that finds a newer number is dropped. The numbers are not given out under the
table's lock, and a write looks for a newer number before it waits for the database.
-/

namespace Engine.RouteHealth

open Base Cdn

/-- The operations on weights, those of `f64`. -/
class Estimate (F : Type) extends Rate F where
  ln : F → F
  powf : F → F → F
  max : F → F → F
  min : F → F → F

section Table

variable {F : Type} [Estimate F]

/-- The version of the stored format (`src/native/engine/src/route_health.rs:70`). -/
def routeFormatVersion : Nat := 3

/-- Seconds for which a host is not switched (`route_health.rs:74`). -/
def noSwitchTtl : Nat := 24 * 3600

/-- The most hosts (`route_health.rs:77`). -/
def maxHosts : Nat := 512

/-- The half-life of rates in seconds (`route_health.rs:84`). -/
def halfLifeSecs : F := 12.0 * 3600.0

/-- The most weight of rates (`route_health.rs:87`). -/
def maxWeight : F := 8.0

/-- Less weight is not kept (`route_health.rs:93`). -/
def pruneWeight : F := 0.05

/-- Older rates are not kept (`route_health.rs:96`). -/
def maxStatAgeSecs : Nat := 7 * 24 * 3600

/-- The half-life of failures in seconds (`route_health.rs:100`). -/
def failHalfLifeSecs : F := 3600.0

/-- The most weight of failures (`route_health.rs:103`). -/
def failMaxWeight : F := 4.0

/-- The rate of a path (`route_health.rs:110–117`). -/
structure PathStat (F : Type) where
  logMean : F
  weight : F
  ts : Nat
deriving DecidableEq

/-- The failures of a path (`route_health.rs:121–126`). -/
structure FailStat (F : Type) where
  weight : F
  ts : Nat
deriving DecidableEq

/-- What is known of a host (`route_health.rs:131–148`). -/
structure HostRoute (F : Type) where
  direct : Option (PathStat F) := none
  manual : Option (PathStat F) := none
  system : Option (PathStat F) := none
  directFail : Option (FailStat F) := none
  manualFail : Option (FailStat F) := none
  systemFail : Option (FailStat F) := none
  noswTs : Nat := 0
deriving DecidableEq

/-- The table by hosts. -/
abbrev Routes (F : Type) := SortedMap String (HostRoute F)

namespace HostRoute

/-- Change the rate of a path; links have none (`route_health.rs:160–167`). -/
def modifySlot (e : HostRoute F) (route : RoutePath)
    (f : Option (PathStat F) → Option (PathStat F)) : HostRoute F :=
  match route with
  | .direct => { e with direct := f e.direct }
  | .proxy .manualFields => { e with manual := f e.manual }
  | .proxy .system => { e with system := f e.system }
  | .link _ => e

/-- Change the failures of a path; links have none (`route_health.rs:178–185`). -/
def modifyFail (e : HostRoute F) (route : RoutePath)
    (f : Option (FailStat F) → Option (FailStat F)) : HostRoute F :=
  match route with
  | .direct => { e with directFail := f e.directFail }
  | .proxy .manualFields => { e with manualFail := f e.manualFail }
  | .proxy .system => { e with systemFail := f e.systemFail }
  | .link _ => e

/-- Without the rates of proxies (`route_health.rs:189–192`). -/
def clearProxyStats (e : HostRoute F) : HostRoute F := { e with manual := none, system := none }

/-- Without what is known of the system's proxy (`route_health.rs:195–198`). -/
def clearSystem (e : HostRoute F) : HostRoute F := { e with system := none, systemFail := none }

/-- Nothing is known (`route_health.rs:200–208`). -/
def isEmpty (e : HostRoute F) : Bool :=
  e.direct.isNone && e.manual.isNone && e.system.isNone && e.directFail.isNone &&
    e.manualFail.isNone && e.systemFail.isNone && e.noswTs == 0

/-- When something was seen last (`route_health.rs:211–221`). -/
def newestTs (e : HostRoute F) : Nat :=
  let rates := [e.direct, e.manual, e.system].reduceOption.map PathStat.ts
  let fails := [e.directFail, e.manualFail, e.systemFail].reduceOption.map FailStat.ts
  (rates ++ fails).foldl Nat.max e.noswTs

end HostRoute

/-- A time within the last day (`route_health.rs:288–292`). -/
def fresh (recordedSecs nowSecs : Nat) : Bool :=
  decide (0 < recordedSecs ∧ recordedSecs ≤ nowSecs ∧ nowSecs - recordedSecs < noSwitchTtl)

/-- The weight of a rate by now, none for a time to come (`route_health.rs:296–303`). -/
def decayedWeight (stat : PathStat F) (now : Nat) : Option F :=
  if stat.ts = 0 ∨ now < stat.ts ∨ !Rate.isFinite stat.logMean ∨ !Rate.isFinite stat.weight then none
  else some (Estimate.max stat.weight 0.0 *
    Estimate.powf 0.5 (((now - stat.ts : Nat) : F) / halfLifeSecs))

/-- A rate with one more measurement (`route_health.rs:317–327`). -/
def blend (slot : Option (PathStat F)) (bps : F) (now : Nat) : PathStat F :=
  let (logMean, w) := (slot.bind fun s ↦
    (decayedWeight s now).map fun w ↦ (s.logMean, w)).getD (0.0, 0.0)
  { logMean := (w * logMean + Estimate.ln bps) / (w + 1.0)
    weight := Estimate.min (w + 1.0) maxWeight
    ts := now }

/-- The rate is kept (`route_health.rs:330–333`). -/
def statAlive (stat : PathStat F) (now : Nat) : Bool :=
  ((decayedWeight stat now).any fun w ↦ Rate.le pruneWeight w) && decide (now - stat.ts ≤ maxStatAgeSecs)

/-- The weight of failures by now (`route_health.rs:336–342`). -/
def failWeight (stat : FailStat F) (now : Nat) : Option F :=
  if stat.ts = 0 ∨ now < stat.ts ∨ !Rate.isFinite stat.weight then none
  else some (Estimate.max stat.weight 0.0 *
    Estimate.powf 0.5 (((now - stat.ts : Nat) : F) / failHalfLifeSecs))

/-- Failures with one more (`route_health.rs:345–354`). -/
def blendFail (slot : Option (FailStat F)) (now : Nat) : FailStat F :=
  let w := (slot.bind fun s ↦ failWeight s now).getD 0.0
  { weight := Estimate.min (w + 1.0) failMaxWeight, ts := now }

/-- What is kept of a host (`route_health.rs:566–582`). -/
def pruneHost (e : HostRoute F) (now : Nat) : HostRoute F :=
  let rate (slot : Option (PathStat F)) := slot.filter fun s ↦ statAlive s now
  let failures (slot : Option (FailStat F)) := slot.filter fun s ↦
    ((failWeight s now).any fun w ↦ !Rate.lt w pruneWeight)
  { direct := rate e.direct, manual := rate e.manual, system := rate e.system
    directFail := failures e.directFail, manualFail := failures e.manualFail
    systemFail := failures e.systemFail
    noswTs := if fresh e.noswTs now then e.noswTs else 0 }

/-- Remove what is not kept, and the oldest hosts beyond the most; of hosts that are equally old, the
ones that the map lists first are kept (`route_health.rs:565–598`). -/
def prune (map : Routes F) (now : Nat) (order : List String) : Routes F :=
  let map := (map.mapValues fun _ e ↦ pruneHost e now).filter fun _ e ↦ !e.isEmpty
  if map.entries.length ≤ maxHosts then map
  else
    let sorted := (map.values.map HostRoute.newestTs).mergeSort
    let cutoff := sorted.getD (sorted.length - maxHosts) 0
    let kept := (order.filter fun host ↦ (map.get? host).any fun e ↦ decide (cutoff ≤ e.newestTs)).take
      maxHosts
    map.filter fun host _ ↦ decide (host ∈ kept)

/-- Without what is known of the system's proxy, and hosts of which nothing else is known
(`route_health.rs:502–509`). -/
def clearSystem (map : Routes F) : Routes F :=
  (map.mapValues fun _ e ↦ e.clearSystem).filter fun _ e ↦ !e.isEmpty

/-- The file in the database (`route_health.rs:226–233`). -/
structure RouteFile (F : Type) where
  v : Nat
  net : String
  sys : String
  hosts : Routes F
deriving DecidableEq

/-- Without what is known of another proxy of the system (`route_health.rs:524–532`). -/
def stripForeignSystem (hosts : Routes F) (recorded current : String) : Routes F :=
  if recorded = "" ∨ current = "" ∨ recorded = current then hosts else clearSystem hosts

/-- The table after a start on the network `net` with the system's proxy `sys`
(`route_health.rs:608–664`). -/
def load (file : Option (RouteFile F)) (net sys : String) (now : Nat) (order : List String) :
    Routes F :=
  match file with
  | none => .empty
  | some file =>
    if file.v ≠ routeFormatVersion then .empty
    else if file.net ≠ net then .empty
    else prune (stripForeignSystem file.hosts file.sys sys) now order

/-! ## Calls and writes -/

/-- The calls that change the table (`route_health.rs:687–800`). -/
inductive Call (F : Type)
  | pathRate (host : String) (route : RoutePath) (perConnBps : F)
  | pathFailure (host : String) (route : RoutePath)
  | noSwitch (host : String)
  | clearProxy (host : String)
  | clearAll
deriving DecidableEq

/-- Where a call is: the section of a lock or the addition that is next. After its snapshot a call
knows the number of changes of the table up to then. -/
inductive Phase (F : Type)
  | ensure
  | clearSystem
  | change
  | readNet
  | snapshot (net : String)
  | readCleared (version : Nat)
  | readSys (net : String) (version : Nat) (hosts : Routes F)
  | number (version : Nat) (file : RouteFile F)
  | returned
deriving DecidableEq

/-- Where a write is. -/
inductive WritePhase
  | spawned
  | checked
  | dropped
  | stored
  | failed
deriving DecidableEq

/-- A write with its number, and the number of changes of the table up to its snapshot. -/
structure Write (F : Type) where
  seq : Nat
  version : Nat
  file : RouteFile F
  phase : WritePhase
deriving DecidableEq

/-- The table, the network and the proxy of the system it is for, the last number, the calls and the
writes so far and the row of the database; `version` counts the changes of the table. -/
structure System (F : Type) where
  table : Routes F
  net : String
  sys : String
  seq : Nat
  version : Nat
  calls : List (Call F × Phase F)
  writes : List (Write F)
  stored : Option (RouteFile F)

/-- What happens: a call begins, a call takes its next step at a time, with the proxy the system has
and the order the map has then, or a write takes its next step. -/
inductive Op (F : Type)
  | begin (call : Call F)
  | advance (call now : Nat) (sys : String) (order : List String)
  | write (index : Nat) (ok : Bool)

/-- Where a call begins; of some paths nothing is recorded (`route_health.rs:688–690`, `709–711`). -/
def Call.first : Call F → Phase F
  | .pathRate _ route bps =>
    if !Rate.isFinite bps ∨ Rate.le bps 0.0 ∨ route.isLink then .returned else .ensure
  | .pathFailure _ route => if route.isLink then .returned else .ensure
  | .noSwitch _ => .ensure
  | .clearProxy _ => .ensure
  | .clearAll => .change

/-- Change a host, which is added if it is not there. -/
def alter (map : Routes F) (host : String) (f : HostRoute F → HostRoute F) : Routes F :=
  map.insert host (f ((map.get? host).getD {}))

/-- The change of a call (`route_health.rs:693–701`, `714–719`, `752–754`, `763–767`, `779–787`). -/
def Call.apply (call : Call F) (map : Routes F) (now : Nat) : Routes F :=
  match call with
  | .pathRate host route bps =>
    alter map host fun e ↦
      (e.modifySlot route fun slot ↦ some (blend slot bps now)).modifyFail route fun _ ↦ none
  | .pathFailure host route =>
    alter map host fun e ↦ e.modifyFail route fun fail ↦ some (blendFail fail now)
  | .noSwitch host => alter map host fun e ↦ { e with noswTs := now }
  | .clearProxy host => map.modify host HostRoute.clearProxyStats
  | .clearAll => .empty

namespace System

/-- Change the table. -/
def withTable (s : System F) (table : Routes F) : System F :=
  { s with table, version := s.version + 1 }

/-- The next step of a call (`route_health.rs:448–515`, `687–847`). The network is known and stays
the same, so that only the proxy of the system can have changed. -/
def advanceCall (s : System F) (call : Call F) (now : Nat) (sys : String) (order : List String) :
    Phase F → System F × Phase F
  | .ensure =>
    if sys = "" ∨ s.sys = sys then (s, .change)
    else ({ s with sys }, if s.sys = "" then .change else .clearSystem)
  | .clearSystem => (s.withTable (clearSystem s.table), .change)
  | .change =>
    let s := s.withTable (call.apply s.table now)
    -- A clear writes an empty table without another look at it.
    match call with
    | .clearAll => (s, .readCleared s.version)
    | _ => (s, .readNet)
  | .readNet => if s.net = "" then (s, .returned) else (s, .snapshot s.net)
  | .snapshot net =>
    let s := s.withTable (prune s.table now order)
    (s, .readSys net s.version s.table)
  | .readCleared version => (s, .readSys s.net version .empty)
  | .readSys net version hosts =>
    (s, .number version { v := routeFormatVersion, net, sys := s.sys, hosts })
  | .number version file =>
    let seq := s.seq + 1
    ({ s with seq, writes := s.writes ++ [⟨seq, version, file, .spawned⟩] }, .returned)
  | .returned => (s, .returned)

/-- A write goes on. -/
def setWrite (s : System F) (index : Nat) (phase : WritePhase) : System F :=
  { s with writes := s.writes.modify index fun w ↦ { w with phase } }

/-- The next step of a write: it looks for a newer number, then it waits for the database
(`route_health.rs:813–820`). -/
def advanceWrite (s : System F) (index : Nat) (w : Write F) (ok : Bool) : System F :=
  match w.phase with
  | .spawned => s.setWrite index (if s.seq = w.seq then .checked else .dropped)
  | .checked =>
    if ok then { s.setWrite index .stored with stored := some w.file }
    else s.setWrite index .failed
  | _ => s

/-- One step. -/
def step (s : System F) : Op F → System F
  | .begin call => { s with calls := s.calls ++ [(call, call.first)] }
  | .advance call now sys order =>
    match s.calls[call]? with
    | none => s
    | some (kind, phase) =>
      let (s, phase) := s.advanceCall kind now sys order phase
      { s with calls := s.calls.modify call fun _ ↦ (kind, phase) }
  | .write index ok =>
    match s.writes[index]? with
    | none => s
    | some w => s.advanceWrite index w ok

/-- A process with a table and a row, on a network that is known. -/
def start (table : Routes F) (net sys : String) (stored : Option (RouteFile F)) : System F :=
  { table, net, sys, seq := 0, version := 0, calls := [], writes := [], stored }

end System

end Table

end Engine.RouteHealth
