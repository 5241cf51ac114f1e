import FluxDown.Protocol.CoalesceSafety

/-!
# The backlog of a lagging subscriber

Library `Protocol`. A subscriber that takes nothing out lets the queue grow by each frame that
is not merged. A report of a task is merged only where the latest report of the task is of the
same kind, so the backlog counts the changes between kinds of report, task by task, and not the
entities that are reported on.
-/

namespace Protocol

open Base

variable {P : Payloads}

/-- What a frame of the steady stream reports. -/
inductive Report where
  /-- Progress of a task and its status. -/
  | progress (taskId : String) (status : Int)
  /-- Readings of a task and the number of the sample. -/
  | runtime (taskId : String) (sampleSequence : Nat)
  /-- Counters of the daemon. -/
  | stats
  /-- The order of the queue. -/
  | queue
deriving DecidableEq

namespace Report

/-- The entity of a report (`src/native/protocol/src/coalesce.rs:19–28`). -/
def key : Report → Key
  | .progress taskId _ => .progress taskId
  | .runtime taskId _ => .runtime taskId
  | .stats => .runtimeStats
  | .queue => .queue

/-- The report of an event: progress that is no deletion, readings with segments, counters and
the order of the queue. -/
def ofDaemon : DaemonEvent P → Option Report
  | .engine (.taskProgress message) =>
    if message.deleted then none else some (.progress message.taskId message.status)
  | .taskRuntimeChanged readings =>
    if readings.segments.isEmpty then none
    else some (.runtime readings.taskId readings.sampleSequence)
  | .runtimeStatsChanged _ => some .stats
  | .engine (.queuePositionsChanged _) | .engine (.queueOrderChanged _ _) => some .queue
  | _ => none

/-- The report of a service event. -/
def ofEvent (event : ServiceEvent P) : Option Report := event.daemonEvent.bind ofDaemon

/-- Both reports are about the same task, the counters or the queue. -/
def meets (report other : Report) : Bool :=
  report.key == other.key || report.key.task.isSome && report.key.task == other.key.task

/-- Samples without a number are not compared. -/
def numbered : Report → Bool
  | .runtime _ sampleSequence => sampleSequence != 0
  | _ => true

/-- The report is of the same kind as the earlier one, which is no sample without a number. -/
def follows (report earlier : Report) : Bool := report.key == earlier.key && earlier.numbered

end Report

/-- Reports, the latest first, that do not follow the latest earlier report they meet. -/
def turnsBack : List Report → Nat
  | [] => 0
  | report :: earlier =>
    turnsBack earlier + if (earlier.find? report.meets).any report.follows then 0 else 1

/-- The number of reports that do not follow the latest earlier report they meet: of each task
the first report, the changes between progress and readings and the reports after a sample
without a number, and one each for the counters and the queue. -/
def turns (reports : List Report) : Nat := turnsBack reports.reverse

/-- The status of each task is constant and its samples are numbered in increasing order. -/
structure Steady (reports : List Report) : Prop where
  /-- One status for each task. -/
  status_eq : ∀ taskId status status', .progress taskId status ∈ reports →
    .progress taskId status' ∈ reports → status = status'
  /-- Later samples have larger numbers. -/
  increasing : reports.Pairwise fun report later ↦ ∀ taskId n m,
    report = .runtime taskId n → later = .runtime taskId m → n < m

/-! ## Merging reports -/

/-- The event of a report. -/
theorem ofDaemon_cases {event : DaemonEvent P} {report : Report}
    (h : Report.ofDaemon event = some report) :
    (∃ message, event = .engine (.taskProgress message) ∧ message.deleted = false ∧
        report = .progress message.taskId message.status) ∨
      (∃ readings, event = .taskRuntimeChanged readings ∧ readings.segments.isEmpty = false ∧
        report = .runtime readings.taskId readings.sampleSequence) ∨
      (∃ stats, event = .runtimeStatsChanged stats ∧ report = .stats) ∨
      ((∃ positions, event = .engine (.queuePositionsChanged positions)) ∨
        ∃ removed added, event = .engine (.queueOrderChanged removed added)) ∧
        report = .queue := by
  unfold Report.ofDaemon at h
  split at h
  · next message =>
    split at h
    · cases h
    · next hkept =>
      rw [Option.some.injEq] at h
      exact .inl ⟨message, rfl, Bool.eq_false_of_not_eq_true hkept, h.symm⟩
  · next readings =>
    split at h
    · cases h
    · next hfilled =>
      rw [Option.some.injEq] at h
      exact .inr (.inl ⟨readings, rfl, Bool.eq_false_of_not_eq_true hfilled, h.symm⟩)
  · next stats =>
    rw [Option.some.injEq] at h
    exact .inr (.inr (.inl ⟨stats, rfl, h.symm⟩))
  · next positions =>
    rw [Option.some.injEq] at h
    exact .inr (.inr (.inr ⟨.inl ⟨positions, rfl⟩, h.symm⟩))
  · next removed added =>
    rw [Option.some.injEq] at h
    exact .inr (.inr (.inr ⟨.inr ⟨removed, added, rfl⟩, h.symm⟩))
  · cases h

private theorem touch_report {event : ServiceEvent P} {report : Report}
    (h : Report.ofEvent event = some report) : touch event = .keyed report.key := by
  rw [Report.ofEvent, Option.bind_eq_some_iff] at h
  obtain ⟨daemon, hdaemon, h⟩ := h
  rw [touch_daemon hdaemon]
  rcases ofDaemon_cases h with ⟨message, rfl, hkept, rfl⟩ | ⟨readings, rfl, -, rfl⟩ |
    ⟨stats, rfl, rfl⟩ | ⟨⟨positions, rfl⟩ | ⟨removed, added, rfl⟩, rfl⟩
  · simp [daemonTouch, engineTouch, hkept, Report.key]
  · rfl
  · rfl
  · rfl
  · rfl

/-- Two reports are consistent: one status for a task, a larger number for a later sample. -/
private structure Report.Consistent (earlier report : Report) : Prop where
  status_eq : ∀ taskId status status', earlier = .progress taskId status →
    report = .progress taskId status' → status = status'
  increasing : ∀ taskId n m, earlier = .runtime taskId n → report = .runtime taskId m → n < m

/-- What merging does to the reports of two events of the daemon. -/
theorem mergeDaemon_report {old new : DaemonEvent P} {earlier report : Report}
    (hold : Report.ofDaemon old = some earlier) (hnew : Report.ofDaemon new = some report)
    (hkey : report.key = earlier.key) (hconsistent : earlier.Consistent report) :
    if earlier.numbered then
      ∃ merged, mergeDaemon old new = some merged ∧ Report.ofDaemon merged = some report
    else mergeDaemon old new = none := by
  rcases ofDaemon_cases hnew with ⟨message, rfl, hkept, rfl⟩ | ⟨readings, rfl, hfilled, rfl⟩ |
    ⟨stats, rfl, rfl⟩ | ⟨hqueue, rfl⟩
  · rcases ofDaemon_cases hold with ⟨before, rfl, -, rfl⟩ | ⟨before, rfl, -, rfl⟩ |
      ⟨before, rfl, rfl⟩ | ⟨-, rfl⟩
    · have htask : message.taskId = before.taskId := Key.progress.inj hkey
      have hstatus : before.status = message.status :=
        hconsistent.status_eq _ _ _ rfl (by rw [htask])
      refine ⟨.engine (.taskProgress (message.inherit before)), ?_, ?_⟩
      · simp [mergeDaemon, mergeEngine, hstatus]
      · have hkept' : (message.inherit before).deleted = false := hkept
        rw [Report.ofDaemon, hkept']
        rfl
    · cases hkey
    · cases hkey
    · cases hkey
  · rcases ofDaemon_cases hold with ⟨before, rfl, -, rfl⟩ | ⟨before, rfl, -, rfl⟩ |
      ⟨before, rfl, rfl⟩ | ⟨-, rfl⟩
    · cases hkey
    · have htask : readings.taskId = before.taskId := Key.runtime.inj hkey
      have hlater : before.sampleSequence < readings.sampleSequence :=
        hconsistent.increasing _ _ _ rfl (by rw [htask])
      by_cases hnumber : before.sampleSequence = 0
      · simp [Report.numbered, mergeDaemon, hnumber]
      · have hmerge : mergeDaemon (.taskRuntimeChanged before) (.taskRuntimeChanged readings) =
            some (.taskRuntimeChanged readings) := by
          simp [mergeDaemon, hfilled, hnumber, hlater]
        simpa [Report.numbered, hnumber, hmerge] using hnew
    · cases hkey
    · cases hkey
  · rcases ofDaemon_cases hold with ⟨before, rfl, -, rfl⟩ | ⟨before, rfl, -, rfl⟩ |
      ⟨before, rfl, rfl⟩ | ⟨-, rfl⟩
    · cases hkey
    · cases hkey
    · exact ⟨_, rfl, rfl⟩
    · cases hkey
  · rcases ofDaemon_cases hold with ⟨before, rfl, -, rfl⟩ | ⟨before, rfl, -, rfl⟩ |
      ⟨before, rfl, rfl⟩ | ⟨hbefore, rfl⟩
    · cases hkey
    · cases hkey
    · cases hkey
    · rcases hqueue with ⟨positions, rfl⟩ | ⟨removed, added, rfl⟩
      · rcases hbefore with ⟨before, rfl⟩ | ⟨gone, come, rfl⟩
        · exact ⟨_, rfl, rfl⟩
        · exact ⟨_, rfl, rfl⟩
      · rcases hbefore with ⟨before, rfl⟩ | ⟨gone, come, rfl⟩
        · exact ⟨_, rfl, rfl⟩
        · exact ⟨_, rfl, rfl⟩

/-- What merging does to the reports of two service events. -/
theorem merge_report {old new : ServiceEvent P} {earlier report : Report}
    (hold : Report.ofEvent old = some earlier) (hnew : Report.ofEvent new = some report)
    (hkey : report.key = earlier.key) (hconsistent : earlier.Consistent report) :
    if earlier.numbered then
      ∃ merged, merge old new = some merged ∧ Report.ofEvent merged = some report
    else merge old new = none := by
  rw [Report.ofEvent, Option.bind_eq_some_iff] at hold hnew
  obtain ⟨old', hold', hold⟩ := hold
  obtain ⟨new', hnew', hnew⟩ := hnew
  have hdaemon := mergeDaemon_report hold hnew hkey hconsistent
  have hmerge : ∃ wrap : DaemonEvent P → ServiceEvent P,
      (∀ event, (wrap event).daemonEvent = some event) ∧
        merge old new = (mergeDaemon old' new').map wrap := by
    cases new with
    | daemon event =>
      cases hnew'
      refine ⟨.daemon, fun _ ↦ rfl, ?_⟩
      simp only [merge, hold', Option.bind_some]
    | agent event =>
      cases event with
      | daemon event =>
        cases hnew'
        refine ⟨fun e ↦ .agent (.daemon e), fun _ ↦ rfl, ?_⟩
        simp only [merge, hold', Option.bind_some]
      | _ => cases hnew'
  obtain ⟨wrap, hwrap, hmerge⟩ := hmerge
  split
  · next hnumbered =>
    rw [if_pos hnumbered] at hdaemon
    obtain ⟨merged, hmerged, hreport⟩ := hdaemon
    refine ⟨wrap merged, by rw [hmerge, hmerged]; rfl, ?_⟩
    rw [Report.ofEvent, hwrap]
    exact hreport
  · next hnumbered =>
    rw [if_neg hnumbered] at hdaemon
    rw [hmerge, hdaemon]
    rfl

/-! ## What the marks say of the reports -/

/-- The queue after reports that were queued without taking any out, the latest first. -/
private structure Backlog (queue : FrameQueue P) (earlier : List Report) : Prop where
  head_eq : queue.head = 0
  barrier_eq : queue.barrier = 0
  live_eq : queue.live = turnsBack earlier
  /-- An entity without a mark was not reported on. -/
  unmarked : ∀ key, queue.keys key = none → ∀ report ∈ earlier, report.key ≠ key
  /-- The marked slot of an entity holds its latest report. -/
  marked : ∀ key i, queue.keys key = some i → ∃ frame report, queue.slots[i]? = some (some frame) ∧
    Report.ofEvent frame.event = some report ∧
    earlier.find? (fun report ↦ report.key == key) = some report
  /-- The mark of a task is that of its latest report. -/
  touched_eq : ∀ taskId, queue.touched taskId =
    (earlier.find? fun report ↦ report.key.task == some taskId).bind fun report ↦
      queue.keys report.key

private theorem backlog_new : Backlog (FrameQueue.new : FrameQueue P) [] where
  head_eq := rfl
  barrier_eq := rfl
  live_eq := rfl
  unmarked _ _ _ h := by cases h
  marked _ _ h := by cases h
  touched_eq _ := rfl

/-- The first element that meets a condition is the first of those that meet a wider one. -/
theorem find?_of_imp {α : Type*} {l : List α} {p q : α → Bool} {a : α}
    (h : l.find? q = some a) (himp : ∀ b, p b → q b) (ha : p a) : l.find? p = some a := by
  rw [List.find?_eq_some_iff_append] at h ⊢
  obtain ⟨-, before, after, hl, hbefore⟩ := h
  refine ⟨ha, before, after, hl, fun b hb ↦ ?_⟩
  have hnot := hbefore b hb
  rw [Bool.not_eq_true'] at hnot ⊢
  exact Bool.eq_false_iff.mpr fun hp ↦ by rw [himp b hp] at hnot; cases hnot

private theorem turnsBack_pos {earlier : List Report} (h : earlier ≠ []) :
    0 < turnsBack earlier := by
  induction earlier with
  | nil => exact absurd rfl h
  | cons report earlier ih =>
    rw [turnsBack]
    by_cases hnil : earlier = []
    · subst hnil
      exact Nat.lt_succ_self 0
    · exact Nat.lt_of_lt_of_le (ih hnil) (Nat.le_add_right _ _)

private theorem meets_of_key {report other : Report} (h : other.key = report.key) :
    report.meets other = true := by
  simp [Report.meets, h]

private theorem meets_iff_task {report other : Report} {taskId : String}
    (h : report.key.task = some taskId) :
    report.meets other = true ↔ other.key.task = some taskId := by
  simp only [Report.meets, Bool.or_eq_true, beq_iff_eq, Bool.and_eq_true, h, Option.isSome_some,
    true_and]
  constructor
  · rintro (hkey | htask)
    · rw [← hkey, h]
    · exact htask.symm
  · intro htask
    exact .inr htask.symm

private theorem mergeable_backlog {queue : FrameQueue P} {earlier : List Report}
    (h : Backlog queue earlier) (key : Key) : queue.mergeable key = (queue.keys key).bind fun i ↦
      if ∀ taskId, key.task = some taskId → queue.touched taskId = some i then some i else none := by
  unfold FrameQueue.mergeable
  cases queue.keys key with
  | none => rfl
  | some i =>
    rw [h.head_eq, h.barrier_eq]
    simp only [Nat.not_lt_zero, or_self, if_false, Option.bind_some]
    cases key.task with
    | none => simp
    | some taskId =>
      by_cases htouched : queue.touched taskId = some i
      · simp [htouched]
      · simp [htouched]

/-- The task mark that a report meets is that of the latest report it meets. -/
theorem touched_of_meets {queue : FrameQueue P} {earlier : List Report}
    (h : Backlog queue earlier) {report other : Report}
    (hother : earlier.find? report.meets = some other) {taskId : String}
    (htask : report.key.task = some taskId) : queue.touched taskId = queue.keys other.key := by
  have hsame : (fun other : Report ↦ other.key.task == some taskId) = report.meets := by
    funext other
    rw [Bool.eq_iff_iff, meets_iff_task htask, beq_iff_eq]
  rw [h.touched_eq, hsame, hother]
  rfl

/-- Marks of different entities mark different slots. -/
theorem keys_injective {queue : FrameQueue P} {earlier : List Report}
    (h : Backlog queue earlier) {key key' : Key} {i : Nat} (hkey : queue.keys key = some i)
    (hkey' : queue.keys key' = some i) : key = key' := by
  obtain ⟨frame, report, hslot, hreport, hfind⟩ := h.marked key i hkey
  obtain ⟨frame', report', hslot', hreport', hfind'⟩ := h.marked key' i hkey'
  rw [hslot, Option.some.injEq, Option.some.injEq] at hslot'
  rw [← hslot', hreport, Option.some.injEq] at hreport'
  have hfound := List.find?_some hfind
  have hfound' := List.find?_some hfind'
  rw [beq_iff_eq] at hfound hfound'
  rw [← hfound, ← hfound', hreport']

/-- A report that follows the latest one it meets is merged with it, any other is not. -/
theorem mergeWith_report {queue : FrameQueue P} {earlier : List Report}
    (h : Backlog queue earlier) {event : ServiceEvent P} {report : Report}
    (hreport : Report.ofEvent event = some report)
    (hconsistent : ∀ other ∈ earlier, other.Consistent report) :
    if (earlier.find? report.meets).any report.follows then
      ∃ i merged, queue.keys report.key = some i ∧
        queue.mergeWith report.key event = some (i, merged) ∧
        Report.ofEvent merged = some report
    else queue.mergeWith report.key event = none := by
  rw [FrameQueue.mergeWith, mergeable_backlog h]
  cases hfind : earlier.find? report.meets with
  | none =>
    -- Nothing was reported of the entity.
    have hunmarked : queue.keys report.key = none := by
      by_contra hsome
      obtain ⟨i, hi⟩ := Option.ne_none_iff_exists'.mp hsome
      obtain ⟨frame, other, -, -, hother⟩ := h.marked _ i hi
      have hkey := List.find?_some hother
      rw [beq_iff_eq] at hkey
      exact List.find?_eq_none.mp hfind other (List.mem_of_find?_eq_some hother)
        (meets_of_key hkey)
    rw [hunmarked]
    rfl
  | some other =>
    have hmem := List.mem_of_find?_eq_some hfind
    by_cases hkey : report.key = other.key
    · -- The latest report of the entity is the latest one met: its slot is marked twice.
      have hsame : earlier.find? (fun report' ↦ report'.key == report.key) = some other := by
        apply find?_of_imp hfind
        · intro b hb
          exact meets_of_key (eq_of_beq hb)
        · rw [beq_iff_eq, hkey]
      obtain ⟨i, hi⟩ : ∃ i, queue.keys report.key = some i := by
        cases hmark : queue.keys report.key with
        | none => exact absurd hkey.symm (h.unmarked _ hmark other hmem)
        | some i => exact ⟨i, rfl⟩
      obtain ⟨frame, found, hslot, hfound, hlatest⟩ := h.marked _ i hi
      rw [hsame, Option.some.injEq] at hlatest
      subst hlatest
      have htouched : ∀ taskId, report.key.task = some taskId →
          queue.touched taskId = some i := by
        intro taskId htask
        rw [touched_of_meets h hfind htask, ← hkey, hi]
      have hmerge := merge_report hfound hreport hkey (hconsistent other hmem)
      rw [hi, Option.bind_some, if_pos htouched, Option.bind_some, h.head_eq, Nat.sub_zero, hslot]
      simp only [Option.join_some, Option.bind_some, Option.any_some, Report.follows, hkey,
        beq_self_eq_true, Bool.true_and]
      split
      · next hnumbered =>
        rw [if_pos hnumbered] at hmerge
        obtain ⟨merged, hmerged, hreport'⟩ := hmerge
        exact ⟨i, merged, rfl, by rw [hmerged]; rfl, hreport'⟩
      · next hnumbered =>
        rw [if_neg hnumbered] at hmerge
        rw [hmerge]
        rfl
    · -- The latest report met is of the other kind, and the task's mark is in its slot.
      have hnot : (some other).any report.follows = false := by
        simp [Report.follows, hkey]
      rw [hnot]
      simp only [Bool.false_eq_true, if_false]
      cases hi : queue.keys report.key with
      | none => rfl
      | some i =>
        obtain ⟨taskId, htask⟩ : ∃ taskId, report.key.task = some taskId := by
          have hmeets := List.find?_some hfind
          simp only [Report.meets, Bool.or_eq_true, beq_iff_eq, Bool.and_eq_true] at hmeets
          exact Option.isSome_iff_exists.mp (hmeets.resolve_left hkey).1
        have htouched : ¬ ∀ taskId, report.key.task = some taskId →
            queue.touched taskId = some i := by
          intro hall
          have hmark := hall taskId htask
          rw [touched_of_meets h hfind htask] at hmark
          exact hkey (keys_injective h hi hmark)
        rw [Option.bind_some, if_neg htouched]
        rfl

/-- A report at the end takes over the marks of its entity and its task. -/
theorem backlog_enqueue {queue after : FrameQueue P} {earlier : List Report}
    (h : Backlog queue earlier) (frame : EventFrame P) {report : Report}
    (hreport : Report.ofEvent frame.event = some report) (hhead : after.head = 0)
    (hbarrier : after.barrier = 0) (hlive : after.live = turnsBack (report :: earlier))
    {slots : List (Option (EventFrame P))} (hslots : after.slots = slots ++ [some frame])
    (hlength : slots.length = queue.slots.length)
    (hkept : ∀ key i slot, key ≠ report.key → queue.keys key = some i →
      queue.slots[i]? = some slot → slots[i]? = some slot)
    (hkeys : ∀ key, after.keys key =
      if key = report.key then some queue.slots.length else queue.keys key)
    (htouched : ∀ taskId, after.touched taskId =
      if report.key.task = some taskId then some queue.slots.length else queue.touched taskId) :
    Backlog after (report :: earlier) := by
  refine ⟨hhead, hbarrier, hlive, ?_, ?_, ?_⟩
  · intro key hnone other hother
    rw [hkeys] at hnone
    split at hnone
    · cases hnone
    · next hkey =>
      cases List.mem_cons.mp hother with
      | inl hnew => exact fun heq ↦ hkey (hnew ▸ heq.symm)
      | inr hold => exact h.unmarked key hnone other hold
  · intro key i hi
    rw [hkeys] at hi
    rw [hslots, List.find?_cons]
    split at hi
    · next hkey =>
      rw [Option.some.injEq] at hi
      refine ⟨frame, report, ?_, hreport, by simp [hkey]⟩
      rw [← hi, ← hlength, List.getElem?_concat_length]
    · next hkey =>
      obtain ⟨frame', other, hslot, hother, hfind⟩ := h.marked key i hi
      refine ⟨frame', other, ?_, hother, ?_⟩
      · have hold := hkept key i _ hkey hi hslot
        rw [List.getElem?_append_left (List.getElem?_eq_some_iff.mp hold).1, hold]
      · rw [beq_false_of_ne (Ne.symm hkey)]
        exact hfind
  · intro taskId
    rw [htouched, List.find?_cons]
    by_cases htask : report.key.task = some taskId
    · rw [if_pos htask, htask, beq_self_eq_true]
      exact ((hkeys report.key).trans (if_pos rfl)).symm
    · rw [if_neg htask, beq_false_of_ne htask, h.touched_eq]
      cases hfind : earlier.find? (fun report ↦ report.key.task == some taskId) with
      | none => rfl
      | some other =>
        have hother := List.find?_some hfind
        rw [beq_iff_eq] at hother
        change queue.keys other.key = after.keys other.key
        rw [hkeys, if_neg]
        intro hkey
        exact htask (hkey ▸ hother)

private theorem backlog_push {queue : FrameQueue P} {earlier : List Report}
    (h : Backlog queue earlier) {frame : EventFrame P} {report : Report}
    (hreport : Report.ofEvent frame.event = some report)
    (hconsistent : ∀ other ∈ earlier, other.Consistent report) :
    Backlog (queue.push frame) (report :: earlier) := by
  have hbegin : Backlog (queue.begin frame) earlier :=
    ⟨h.head_eq, h.barrier_eq, h.live_eq, h.unmarked, h.marked, h.touched_eq⟩
  have hnext : (queue.begin frame).next = queue.slots.length := by
    change queue.head + queue.slots.length = _
    rw [h.head_eq, Nat.zero_add]
  have hkeys : ∀ key, ((queue.begin frame).markKey report.key).keys key =
      if key = report.key then some queue.slots.length else queue.keys key := by
    intro key
    rw [← hnext]
    exact Function.update_apply ..
  have htouched : ∀ taskId, ((queue.begin frame).markKey report.key).touched taskId =
      if report.key.task = some taskId then some queue.slots.length
      else queue.touched taskId := by
    intro taskId
    rw [← hnext]
    rfl
  have hmerge := mergeWith_report hbegin hreport hconsistent
  split at hmerge
  · next hfollows =>
    obtain ⟨i, merged, hi, hwith, hmerged⟩ := hmerge
    have hi : queue.keys report.key = some i := hi
    rw [FrameQueue.push_of_merged (touch_report hreport) hwith]
    have hpos : 0 < queue.live := by
      rw [h.live_eq]
      apply turnsBack_pos
      rintro rfl
      cases hfollows
    refine backlog_enqueue h { frame with event := merged } hmerged h.head_eq h.barrier_eq ?_ rfl
      (List.length_set ..) ?_ hkeys htouched
    · rw [turnsBack, if_pos hfollows, ← h.live_eq]
      exact Nat.sub_add_cancel hpos
    · intro key j slot hkey hj hslot
      have hne : i ≠ j := fun heq ↦ hkey (keys_injective h hj (heq ▸ hi))
      rw [List.getElem?_set_ne hne, hslot]
  · next hfollows =>
    rw [FrameQueue.push_of_apart (touch_report hreport) hmerge]
    refine backlog_enqueue h frame hreport h.head_eq h.barrier_eq ?_ rfl rfl ?_ hkeys htouched
    · rw [turnsBack, if_neg hfollows, ← h.live_eq]
      rfl
    · intro _ _ _ _ _ hslot
      exact hslot

/-! ## The backlog counts changes -/

private theorem Steady.consistent {reports : List Report} {report : Report}
    (h : Steady (reports ++ [report])) : ∀ other ∈ reports, other.Consistent report := by
  intro other hother
  constructor
  · rintro taskId status status' rfl rfl
    exact h.status_eq taskId status status' (List.mem_append_left _ hother) (by simp)
  · intro taskId n m hn hm
    exact (List.pairwise_append.mp h.increasing).2.2 other hother report (by simp) taskId n m hn hm

private theorem Steady.take {reports : List Report} (h : Steady reports) (k : Nat) :
    Steady (reports.take k) where
  status_eq taskId status status' hmem hmem' :=
    h.status_eq taskId status status' (List.mem_of_mem_take hmem) (List.mem_of_mem_take hmem')
  increasing := h.increasing.sublist (List.take_sublist k reports)

private theorem backlog_run {frames : List (EventFrame P)} {reports : List Report}
    (hframes : frames.map (fun frame ↦ Report.ofEvent frame.event) = reports.map some)
    (hsteady : Steady reports) :
    Backlog (run FrameQueue.push FrameQueue.new frames) reports.reverse := by
  induction frames using List.reverseRecOn generalizing reports with
  | nil =>
    have hnil : reports = [] := by simpa using hframes.symm
    rw [hnil]
    exact backlog_new
  | append_singleton frames frame ih =>
    rw [List.map_append] at hframes
    obtain ⟨before, last, hreports, hbefore, hlast⟩ := List.map_eq_append_iff.mp hframes.symm
    obtain ⟨report, rfl, hreport⟩ := List.map_eq_singleton_iff.mp hlast
    subst hreports
    rw [run_concat, List.reverse_concat]
    have hprior : Steady before := by
      have htake := hsteady.take before.length
      rwa [List.take_left] at htake
    apply backlog_push (ih hbefore.symm hprior) hreport.symm
    intro other hother
    exact hsteady.consistent other (List.mem_reverse.mp hother)

private theorem turnsBack_append (later earlier : List Report) :
    turnsBack earlier ≤ turnsBack (later ++ earlier) := by
  induction later with
  | nil => exact Nat.le_refl _
  | cons report later ih => exact Nat.le_trans ih (Nat.le_add_right _ _)

private theorem turns_take (reports : List Report) (k : Nat) :
    turns (reports.take k) ≤ turns reports := by
  have hsplit : reports.reverse = (reports.drop k).reverse ++ (reports.take k).reverse := by
    rw [← List.reverse_append, List.take_append_drop]
  rw [turns, turns, hsplit]
  exact turnsBack_append _ _

/-- A queue that nothing is taken out of holds one frame for each turn of the reports. -/
theorem len_eq_turns {frames : List (EventFrame P)} {reports : List Report}
    (hframes : frames.map (fun frame ↦ Report.ofEvent frame.event) = reports.map some)
    (hsteady : Steady reports) : (run FrameQueue.push FrameQueue.new frames).len = turns reports :=
  (backlog_run hframes hsteady).live_eq

/-- The backlog of steady reports stays within two frames a task, and one each for the counters
and the queue, exactly if the reports turn no more often. -/
theorem backlog_bounded_iff (T : Nat) (frames : List (EventFrame P)) (reports : List Report)
    (hframes : frames.map (fun frame ↦ Report.ofEvent frame.event) = reports.map some)
    (hsteady : Steady reports) :
    (∀ k, (run FrameQueue.push FrameQueue.new (frames.take k)).len ≤ 2 * T + 2) ↔
      turns reports ≤ 2 * T + 2 := by
  have hlen : ∀ k, (run FrameQueue.push FrameQueue.new (frames.take k)).len =
      turns (reports.take k) := by
    intro k
    apply len_eq_turns _ (hsteady.take k)
    rw [List.map_take, List.map_take, hframes]
  constructor
  · intro hall
    have hend := hall frames.length
    have hlength : frames.length = reports.length := by simpa using congrArg List.length hframes
    rwa [hlen, hlength, List.take_length] at hend
  · intro hturns k
    rw [hlen]
    exact Nat.le_trans (turns_take reports k) hturns

/-- A frame with the progress of a task that is downloading. -/
def progressFrame (sequence : Nat) (taskId : String) : EventFrame noPayloads :=
  ⟨"epoch", sequence, none, .daemon (.engine (.taskProgress
    ⟨taskId, 1, 0, 100, 0, 0, "", "", "", "", 0, 0, "", 0⟩))⟩

/-- A frame with readings of a task. -/
def runtimeFrame (sequence sampleSequence : Nat) (taskId : String) : EventFrame noPayloads :=
  ⟨"epoch", sequence, none, .daemon (.taskRuntimeChanged
    ⟨taskId, 0, sampleSequence, none, none, none, 100, [⟨0, 0, 99, 0, none⟩], none⟩)⟩

/-- Two tasks with progress and readings. -/
theorem backlog_bounded_iff_two_tasks :
    (run FrameQueue.push FrameQueue.new
      ([progressFrame 1 "a", runtimeFrame 2 1 "b", progressFrame 3 "a", runtimeFrame 4 2 "b",
        runtimeFrame 5 1 "a"].take 5)).len ≤ 2 * 2 + 2 := by
  refine (backlog_bounded_iff 2 _ [.progress "a" 1, .runtime "b" 1, .progress "a" 1, .runtime "b" 2,
    .runtime "a" 1] (by decide) ⟨?_, ?_⟩).mpr (by decide) 5
  · intro taskId status status' h h'
    simp only [List.mem_cons, reduceCtorEq, Report.progress.injEq, List.not_mem_nil, or_false,
      false_or, or_self] at h h'
    rw [h.2, h'.2]
  · simp only [List.pairwise_cons, List.mem_cons, List.not_mem_nil, List.Pairwise.nil]
    grind

/-- Progress and readings of one task in turn: no frame is merged. -/
theorem backlog_exceeds :
    let frames := [progressFrame 1 "a", runtimeFrame 2 1 "a", progressFrame 3 "a",
      runtimeFrame 4 2 "a", progressFrame 5 "a"]
    let reports : List Report :=
      [.progress "a" 1, .runtime "a" 1, .progress "a" 1, .runtime "a" 2, .progress "a" 1]
    frames.map (fun frame ↦ Report.ofEvent frame.event) = reports.map some ∧ Steady reports ∧
      ¬ (run FrameQueue.push FrameQueue.new frames).len ≤ 2 * 1 + 2 := by
  refine ⟨by decide, ⟨?_, ?_⟩, by decide⟩
  · intro taskId status status' h h'
    simp only [List.mem_cons, reduceCtorEq, Report.progress.injEq, List.not_mem_nil, or_false,
      false_or, or_self] at h h'
    rw [h.2, h'.2]
  · simp only [List.pairwise_cons, List.mem_cons, List.not_mem_nil, List.Pairwise.nil]
    grind

end Protocol
