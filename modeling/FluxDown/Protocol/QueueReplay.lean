import FluxDown.Base.Overwrites
import FluxDown.Protocol.Event

/-!
# Queue tables that follow the same events

Library `Protocol`. Two queue tables take the same events. They may differ at first in the tasks the
events name: every event leaves fewer tasks in which they can differ, so when each of those tasks
was named by an event the tables have the same entries, and being in order they are the same.
-/

namespace Protocol

open Base Engine.QueueOrder

variable {P : Payloads}

/-- The tables have the same entries of the tasks. -/
def AgreeOn (ids : String → Prop) (positions positions' : List QueuePositionDto) : Prop :=
  ∀ entry, ids entry.taskId → (entry ∈ positions.map entryOf ↔ entry ∈ positions'.map entryOf)

/-- The ranks are those of the places. -/
def Ranked (positions : List QueuePositionDto) : Prop := renumber positions = positions

/-- Renumbered rows have their places as ranks. -/
theorem ranked_renumber (positions : List QueuePositionDto) : Ranked (renumber positions) :=
  renumber_congr (map_entryOf_renumber positions)

/-- After a difference the ranks are the places. -/
theorem ranked_applyQueueOrder (positions : List QueuePositionDto) (removed : List String)
    (added : List QueueOrderEntryDto) : Ranked (applyQueueOrder positions removed added) :=
  ranked_renumber _

/-- A table whose keys do not fall and whose entries are distinct. -/
structure Tidy (positions : List QueuePositionDto) : Prop where
  sorted : (positions.map entryOf).Pairwise fun a b ↦ a.order ≤ b.order
  distinct : (positions.map entryOf).Nodup
  ranked : Ranked positions

/-- A tidy table stays tidy. -/
theorem Tidy.applyQueueOrder {positions : List QueuePositionDto} (h : Tidy positions)
    (removed : List String) (added : List QueueOrderEntryDto) :
    Tidy (applyQueueOrder positions removed added) where
  sorted := by
    rw [Protocol.applyQueueOrder, map_entryOf_renumber]
    have hsorted := (@List.pairwise_map _ _ entryOf _ positions).mp h.sorted
    exact sorted_spliceQueue hsorted removed added
  distinct := by
    rw [Protocol.applyQueueOrder, map_entryOf_renumber]
    exact nodup_spliceQueue h.distinct removed added
  ranked := ranked_applyQueueOrder positions removed added

/-- Tidy tables with the same entries, one of them in order, are the same. -/
theorem Tidy.eq_of_agree {positions positions' : List QueuePositionDto} (h : Tidy positions)
    (h' : Ranked positions') (hin : InOrder positions')
    (hagree : AgreeOn (fun _ ↦ True) positions positions') : positions = positions' := by
  have hincreasing := increasing_entries.mpr hin
  have hperm : (positions.map entryOf).Perm (positions'.map entryOf) :=
    (List.perm_ext_iff_of_nodup h.distinct hincreasing.nodup).mpr fun entry ↦ hagree entry trivial
  have hentries := hincreasing.eq_of_sorted h.sorted hperm
  calc positions = renumber positions := h.ranked.symm
    _ = renumber positions' := renumber_congr hentries
    _ = positions' := h'

/-- After a difference the tables agree also on the tasks it names. -/
theorem AgreeOn.applyQueueOrder {ids : String → Prop} {positions positions' : List QueuePositionDto}
    (h : AgreeOn ids positions positions') (removed : List String)
    (added : List QueueOrderEntryDto) :
    AgreeOn (fun id ↦ ids id ∨ id ∈ removed ∨ lastRow? QueueOrderEntry.taskId id added ≠ none)
      (applyQueueOrder positions removed added) (applyQueueOrder positions' removed added) := by
  intro entry hids
  rw [Protocol.applyQueueOrder, Protocol.applyQueueOrder, map_entryOf_renumber,
    map_entryOf_renumber, mem_spliceQueue, mem_spliceQueue]
  rcases hids with hid | hremoved | hadded
  · rw [h entry hid]
  · simp [hremoved]
  · simp [hadded]

/-! ## Events -/

/-- The queue table after an event. -/
def queueAfter (positions : List QueuePositionDto) : DaemonEvent P → List QueuePositionDto
  | .snapshotReplaced replacement => replacement.queuePositions
  | .tablesReloading _ queue => if queue.isSome then [] else positions
  | .engine (.queuePositionsChanged rows) => rows
  | .engine (.queueOrderChanged removed added) => applyQueueOrder positions removed added
  | _ => positions

/-- The queue table after an event. -/
theorem queue_apply (snapshot : DaemonSnapshot P) (event : DaemonEvent P) :
    (applyDaemonEvent snapshot event).queuePositions =
      queueAfter snapshot.queuePositions event := by
  cases event with
  | taskRuntimeChanged runtime => simp only [applyDaemonEvent, queueAfter]; split <;> rfl
  | tasksChanged tasks =>
    apply foldl_keeps (g := DaemonSnapshot.queuePositions) (f := applyTaskChanged)
    exact fun _ _ ↦ rfl
  | engine message =>
    cases message with
    | taskProgress progress =>
      simp only [applyDaemonEvent, applyEngineMessage, queueAfter]; split <;> rfl
    | segmentProgress taskId totalBytes segments =>
      simp only [applyDaemonEvent, applyEngineMessage, queueAfter]; split <;> rfl
    | fileMissingChanged updates =>
      apply foldl_keeps (g := DaemonSnapshot.queuePositions) (f := fun snapshot update ↦
        DaemonSnapshot.updateTask snapshot update.taskId (FileMissingUpdateDto.markTask update))
      exact fun _ _ ↦ rfl
    | _ => rfl
  | _ => rfl

/-- The event replaces tables by others that are not in it. -/
def DaemonEvent.reloads : DaemonEvent P → Bool
  | .snapshotReplaced _ => true
  | .tablesReloading _ _ => true
  | _ => false

/-- The event says where the task is in the queue. -/
def Places : DaemonEvent P → String → Prop
  | .engine (.queueOrderChanged removed added), id =>
    id ∈ removed ∨ lastRow? QueueOrderEntry.taskId id added ≠ none
  | _, _ => False

/-- The queue table of the client follows that of the server in the tasks. -/
structure Follows (ids : String → Prop) (client server : List QueuePositionDto) : Prop where
  tidy : Tidy client
  ranked : Ranked server
  agree : AgreeOn ids client server

/-- After an event the tables are the same, or agree also on the tasks it places. -/
theorem Follows.queueAfter {ids : String → Prop} {client server : List QueuePositionDto}
    (h : Follows ids client server) {event : DaemonEvent P} (hreload : event.reloads = false) :
    queueAfter client event = queueAfter server event ∨
      Follows (fun id ↦ ids id ∨ Places event id) (queueAfter client event)
        (queueAfter server event) := by
  have hkeep : Follows (fun id ↦ ids id ∨ False) client server :=
    ⟨h.tidy, h.ranked, fun entry hid ↦ h.agree entry (hid.resolve_right id)⟩
  cases event with
  | snapshotReplaced replacement => cases hreload
  | tablesReloading tasks queue => cases hreload
  | engine message =>
    cases message with
    | queuePositionsChanged rows => exact .inl rfl
    | queueOrderChanged removed added =>
      exact .inr ⟨h.tidy.applyQueueOrder removed added, ranked_applyQueueOrder _ _ _,
        h.agree.applyQueueOrder removed added⟩
    | _ => exact .inr hkeep
  | _ => exact .inr hkeep

/-- After events the tables are the same, or agree also on the tasks the events place. -/
theorem Follows.foldl {ids : String → Prop} {client server : List QueuePositionDto}
    (h : client = server ∨ Follows ids client server) {events : List (DaemonEvent P)}
    (hreload : ∀ event ∈ events, event.reloads = false) :
    events.foldl Protocol.queueAfter client = events.foldl Protocol.queueAfter server ∨
      Follows (fun id ↦ ids id ∨ ∃ event ∈ events, Places event id)
        (events.foldl Protocol.queueAfter client) (events.foldl Protocol.queueAfter server) := by
  induction events generalizing ids client server with
  | nil =>
    rcases h with heq | h
    · exact .inl heq
    · exact .inr ⟨h.tidy, h.ranked, fun entry hid ↦ h.agree entry (by simpa using hid)⟩
  | cons event events ih =>
    rw [List.forall_mem_cons] at hreload
    have hstep : Protocol.queueAfter client event = Protocol.queueAfter server event ∨
        Follows (fun id ↦ ids id ∨ Places event id) (Protocol.queueAfter client event)
          (Protocol.queueAfter server event) := by
      rcases h with rfl | h
      · exact .inl rfl
      · exact h.queueAfter hreload.1
    rcases ih hstep hreload.2 with heq | hfollows
    · exact .inl heq
    · refine .inr ⟨hfollows.tidy, hfollows.ranked, fun entry hid ↦ hfollows.agree entry ?_⟩
      simpa [or_assoc] using hid

end Protocol
