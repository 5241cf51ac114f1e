import FluxDown.Base.Ranked
import FluxDown.Base.SortedMap

/-!
# Queue order publication

Library `Engine`. The publisher keeps a sort key for every queued task and turns the current
queue into the difference to the table it published last: keys survive as long as the order
does, new tasks get keys beside or between their neighbours, and a reordered queue or a closed
gap replaces the whole table. Keys are `i64` in the source; every key stays within
`±2 ^ 52` or the product of a queue length and the step, so none wraps.
-/

namespace Engine.QueueOrder

open Base

/-- Distance of keys in a fresh table (`src/native/engine/src/queue_order.rs:12`). -/
def keyStep : Int := 2 ^ 20

/-- Largest absolute value of a key beside the table (`queue_order.rs:15`). -/
def keyLimit : Int := 2 ^ 52

/-- A task and its sort key. -/
structure QueueOrderEntry (Id : Type) where
  /-- The task. -/
  taskId : Id
  /-- Its sort key. -/
  order : Int
deriving DecidableEq, Repr

/-- A row of a published table. -/
structure QueuePosition (Id : Type) where
  /-- The task. -/
  taskId : Id
  /-- Its rank from one. -/
  position : Int
  /-- Its sort key. -/
  order : Int
deriving DecidableEq, Repr

/-- Difference to the last publication (`queue_order.rs:18–30`). -/
inductive QueueOrderDelta (Id : Type) where
  /-- Nothing changed. -/
  | unchanged
  /-- The table is replaced. -/
  | full (positions : List (QueuePosition Id))
  /-- Tasks are removed, then others inserted. -/
  | incremental (removed : List Id) (added : List (QueueOrderEntry Id))
deriving DecidableEq, Repr

/-- The order in which a hash map yields its keys: any rearrangement. -/
structure HashOrder (Id : Type) where
  /-- Rearrange the keys. -/
  order : List Id → List Id
  /-- Nothing is lost or repeated. -/
  perm : ∀ ids, (order ids).Perm ids

/-- Keys published last (`queue_order.rs:32–36`). -/
structure QueueOrderPublisher (Id : Type) [LinearOrder Id] where
  /-- Sort key by task. -/
  keys : SortedMap Id Int

/-- An `i64` result of checked arithmetic. -/
def checkedI64 (n : Int) : Option Int := if -2 ^ 63 ≤ n ∧ n < 2 ^ 63 then some n else none

/-- Rank of a row, saturating at `i32::MAX`. -/
def rankOf (index : Nat) : Int := if index + 1 < 2 ^ 31 then index + 1 else 2 ^ 31 - 1

/-- Keys for a run of `count` new tasks between two neighbours (`queue_order.rs:143–176`). -/
def allotKeys (prev next : Option Int) (count : Nat) : Option (List Int) :=
  match prev, next with
  | some prev, none => do
    let last ← checkedI64 (prev + (← checkedI64 (keyStep * count)))
    if keyLimit < last then none
    else some ((List.range count).map fun offset : Nat ↦ prev + keyStep * (offset + 1))
  | none, some next => do
    let first ← checkedI64 (next - (← checkedI64 (keyStep * count)))
    if first < -keyLimit then none
    else some ((List.range count).map fun offset : Nat ↦ first + keyStep * offset)
  | some prev, some next =>
    let step := (next - prev).tdiv (count + 1)
    if step < 1 then none
    else some ((List.range count).map fun offset : Nat ↦ prev + step * (offset + 1))
  | none, none => none

/-- Keys for the indices without one, from `index` on and after the key `prev`
(`queue_order.rs:128–179`). -/
def assignFrom (index : Nat) (prev : Option Int) :
    List (Option Int) → Option (List (Nat × Int))
  | [] => some []
  | some key :: rest => assignFrom (index + 1) (some key) rest
  | none :: rest => do
    let count := (rest.takeWhile Option.isNone).length + 1
    let tail := rest.dropWhile Option.isNone
    let keys ← allotKeys prev tail.head?.join count
    let later ← assignFrom (index + count) prev tail
    some ((keys.zipIdx index).map Prod.swap ++ later)
termination_by existing => existing.length
decreasing_by
  · simp
  · have := (List.dropWhile_sublist (l := rest) Option.isNone).length_le
    simp only [List.length_cons]
    omega

/-- Keys for all indices without one (`queue_order.rs:127–180`). -/
def assignNewKeys (existing : List (Option Int)) : Option (List (Nat × Int)) :=
  assignFrom 0 none existing

section Publisher

variable {Id : Type} [LinearOrder Id]

/-- Known keys along the queue, none if they do not increase (`queue_order.rs:57–71`). -/
def existingKeys (keys : SortedMap Id Int) (last : Option Int) :
    List Id → Option (List (Option Int))
  | [] => some []
  | id :: ids => match keys.get? id with
    | none => (existingKeys keys last ids).map (none :: ·)
    | some key =>
      if last.any (key ≤ ·) then none
      else (existingKeys keys (some key) ids).map (some key :: ·)

/-- The publisher before the first publication. -/
def QueueOrderPublisher.new : QueueOrderPublisher Id := ⟨SortedMap.empty⟩

/-- Assign all keys anew and publish the whole table (`queue_order.rs:102–121`). -/
def reassign (ordered : List Id) : QueueOrderDelta Id × QueueOrderPublisher Id :=
  let positions := ordered.mapIdx fun index id ↦
    ⟨id, rankOf index, ((index : Int) + 1) * keyStep⟩
  (.full positions,
    ⟨SortedMap.empty.insertAll (positions.map fun row ↦ (row.taskId, row.order))⟩)

/-- Difference of a queue to the last publication, and the publisher after publishing it
(`queue_order.rs:41–99`). -/
def QueueOrderPublisher.diff (publisher : QueueOrderPublisher Id) (hash : HashOrder Id)
    (queue : List Id) : QueueOrderDelta Id × QueueOrderPublisher Id :=
  let ordered := queue.eraseDups
  if ordered.isEmpty then
    if publisher.keys.entries.isEmpty then (.unchanged, publisher)
    else (.full [], ⟨SortedMap.empty⟩)
  else if publisher.keys.entries.isEmpty then reassign ordered
  else match existingKeys publisher.keys none ordered with
    | none => reassign ordered
    | some existing => match assignNewKeys existing with
      | none => reassign ordered
      | some assigned =>
        let retained := existing.countP Option.isSome
        let removed :=
          if retained < publisher.keys.entries.length then
            hash.order (publisher.keys.keys.filter (· ∉ ordered))
          else []
        if removed.isEmpty && assigned.isEmpty then (.unchanged, publisher)
        else
          let added := assigned.filterMap fun (index, key) ↦
            ordered[index]?.map fun id ↦ QueueOrderEntry.mk id key
          (.incremental removed added,
            ⟨(publisher.keys.eraseAll removed).insertAll
              (added.map fun entry ↦ (entry.taskId, entry.order))⟩)

/-- A client applies a difference to its table (`queue_order.rs:205–225`). -/
def applyDelta (published : List (QueueOrderEntry Id)) :
    QueueOrderDelta Id → List (QueueOrderEntry Id)
  | .unchanged => published
  | .full positions => positions.map fun row ↦ ⟨row.taskId, row.order⟩
  | .incremental removed added =>
    sortByRank QueueOrderEntry.order (added.foldl
      (fun table entry ↦ table.filter (fun row ↦ row.taskId ≠ entry.taskId) ++ [entry])
      (published.filter fun row ↦ row.taskId ∉ removed))

/-- A publisher and one client. -/
structure Publication (Id : Type) [LinearOrder Id] where
  /-- The publisher. -/
  publisher : QueueOrderPublisher Id
  /-- The client's table. -/
  published : List (QueueOrderEntry Id)

/-- The difference a step publishes. -/
def Publication.delta (p : Publication Id) (step : HashOrder Id × List Id) :
    QueueOrderDelta Id :=
  (p.publisher.diff step.1 step.2).1

/-- Publish a queue and let the client follow. -/
def Publication.publish (p : Publication Id) (step : HashOrder Id × List Id) : Publication Id :=
  ⟨(p.publisher.diff step.1 step.2).2, applyDelta p.published (p.delta step)⟩

/-- Nothing published yet. -/
def Publication.new : Publication Id := ⟨QueueOrderPublisher.new, []⟩

end Publisher

end Engine.QueueOrder
