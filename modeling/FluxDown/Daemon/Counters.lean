import FluxDown.Daemon.EventHub
import FluxDown.Protocol.EventLocality

/-!
# The counters agree with the projection

Library `Daemon`. The samples have the ids and statuses of the rows, the counters count them, and
no subtraction is cut off. Each change of the samples is matched with the change of the rows
that the reducer makes for the same event.
-/

namespace Daemon

open Base Protocol

variable {P : Payloads}

/-- The samples and counters are those of the rows. -/
structure Counted (a : RuntimeAccounting) (rows : List (TaskDto P)) : Prop where
  distinct : (rows.map TaskDto.taskId).Nodup
  /-- The sampled tasks are those of the rows, with their statuses. -/
  sampled : ∀ id, (a.tasks id).map TaskSample.status =
    (lastRow? TaskDto.taskId id rows).map TaskDto.status
  active : a.active = rows.countP fun task ↦ isActive task.status
  pending : a.pending = rows.countP fun task ↦ task.status == 0
  /-- No subtraction was cut off. -/
  clamps : a.clamps = 0

namespace RuntimeAccounting

/-! ## Traffic leaves the counters alone -/

/-- The samples, the counters and the count of clamps are the same. -/
structure Same (a b : RuntimeAccounting) : Prop where
  tasks : b.tasks = a.tasks
  active : b.active = a.active
  pending : b.pending = a.pending
  clamps : b.clamps = a.clamps

/-- An accounting is the same as itself. -/
theorem Same.refl (a : RuntimeAccounting) : Same a a := ⟨rfl, rfl, rfl, rfl⟩

/-- Being the same carries over. -/
theorem Same.trans {a b d : RuntimeAccounting} (h : Same a b) (h' : Same b d) : Same a d :=
  ⟨h'.tasks.trans h.tasks, h'.active.trans h.active, h'.pending.trans h.pending,
    h'.clamps.trans h.clamps⟩

private theorem same_addToBucket (a : RuntimeAccounting) (tick : Nat) (downloaded uploaded : Int) :
    Same a (a.addToBucket tick downloaded uploaded) := by
  unfold addToBucket
  simp only
  split
  · exact Same.refl a
  · exact ⟨rfl, rfl, rfl, rfl⟩

/-- Traffic leaves the counters as they are. -/
theorem same_recordTraffic (a : RuntimeAccounting) (downloaded uploaded : Int)
    (since : Option Nat) (now : Nat) : Same a (a.recordTraffic downloaded uploaded since now) := by
  have hspread : ∀ (a : RuntimeAccounting) start stop, Same a (a.spread start stop downloaded uploaded) := by
    intro a start stop
    unfold spread
    simp only
    -- One tick after another, whatever is left to spread.
    have hfold : ∀ (f : RuntimeAccounting × Int × Int → Nat → RuntimeAccounting × Int × Int),
        (∀ x tick, Same x.1 (f x tick).1) → ∀ (ticks : List Nat) (x : RuntimeAccounting × Int × Int),
          Same a x.1 → Same a (ticks.foldl f x).1 := by
      intro f hf ticks
      induction ticks with
      | nil => exact fun x h ↦ h
      | cons tick ticks ih => exact fun x h ↦ ih _ (h.trans (hf x tick))
    apply hfold
    · exact fun x tick ↦ same_addToBucket x.1 tick _ _
    · exact Same.refl a
  unfold recordTraffic
  split
  · exact Same.refl a
  · simp only
    split
    · exact Same.trans (⟨rfl, rfl, rfl, rfl⟩ : Same a { a with burstStart := _, published := none })
        (hspread _ _ _)
    · exact hspread _ _ _

/-- Reading the rates empties the buckets that are out of range, and else it changes only the mark
of a burst and what was published last. -/
theorem exists_rates_eq (a : RuntimeAccounting) (now : Nat) : ∃ burst published,
    (a.rates now).1 = { a with
      buckets := a.buckets.map fun bucket ↦
        if trafficBuckets ≤ a.tick now - bucket.tick then {} else bucket
      burstStart := burst
      published := published } := by
  unfold rates
  extract_lets tick buckets aged period stop windowStart first unburst counted
  have hunburst : ∃ burst, unburst = { aged with burstStart := burst } := by
    by_cases hrecent : (!aged.recentTraffic tick) = true
    · exact ⟨none, if_pos hrecent⟩
    · exact ⟨a.burstStart, if_neg hrecent⟩
  obtain ⟨burst, hunburst⟩ := hunburst
  cases aged.published.filter fun published ↦ published.1 == period with
  | some published => exact ⟨_, _, rfl⟩
  | none =>
    rw [hunburst]
    by_cases hempty : stop - first = 0
    · rw [if_pos hempty]
      exact ⟨_, _, rfl⟩
    · rw [if_neg hempty]
      exact ⟨_, _, rfl⟩

/-- Reading the rates leaves the counters as they are. -/
theorem same_rates (a : RuntimeAccounting) (now : Nat) : Same a (a.rates now).1 := by
  obtain ⟨burst, published, heq⟩ := a.exists_rates_eq now
  rw [heq]
  exact ⟨rfl, rfl, rfl, rfl⟩

end RuntimeAccounting

/-! ## Each change of the samples matches a change of the rows -/

open RuntimeAccounting

variable {a b : RuntimeAccounting} {rows : List (TaskDto P)}

private theorem Counted.same (hsame : Same a b) (h : Counted a rows) : Counted b rows where
  distinct := h.distinct
  sampled := by
    rw [hsame.tasks]
    exact h.sampled
  active := hsame.active.trans h.active
  pending := hsame.pending.trans h.pending
  clamps := hsame.clamps.trans h.clamps

/-- What a row counts is a part of the count. -/
theorem lastRow_le_countP (q : TaskDto P → Bool) (id : String) (rows : List (TaskDto P)) :
    ((lastRow? TaskDto.taskId id rows).map fun row ↦ (q row).toNat).getD 0 ≤ rows.countP q := by
  cases hfound : lastRow? TaskDto.taskId id rows with
  | none => exact Nat.zero_le _
  | some row =>
    cases hq : q row with
    | false => simp [hq]
    | true =>
      simp only [Option.map_some, hq, Bool.toNat_true, Option.getD_some]
      exact List.countP_pos_iff.mpr ⟨row, (lastRow?_eq_some hfound).1, hq⟩

/-- The status that a sample holds is the one of the row. -/
theorem Counted.status (h : Counted a rows) {id : String} {sample : TaskSample}
    (hsample : a.tasks id = some sample) :
    ∃ row, lastRow? TaskDto.taskId id rows = some row ∧ row.status = sample.status := by
  have hsampled := h.sampled id
  rw [hsample] at hsampled
  cases hfound : lastRow? TaskDto.taskId id rows with
  | none => rw [hfound] at hsampled; cases hsampled
  | some row =>
    rw [hfound] at hsampled
    exact ⟨row, rfl, (Option.some.inj hsampled).symm⟩

private theorem Counted.no_row (h : Counted a rows) {id : String} (hsample : a.tasks id = none) :
    lastRow? TaskDto.taskId id rows = none := by
  have hsampled := h.sampled id
  rw [hsample] at hsampled
  cases hfound : lastRow? TaskDto.taskId id rows with
  | none => rfl
  | some row => rw [hfound] at hsampled; cases hsampled

/-- A status is exchanged for another one, as the rows do it. -/
theorem counted_exchange {rows' : List (TaskDto P)} (h : Counted a rows) {id : String}
    {sample new : TaskSample} {status : Int} (hsample : a.tasks id = some sample)
    (hnew : new.status = status) (hdistinct : (rows'.map TaskDto.taskId).Nodup)
    (hrows : ∀ other, (lastRow? TaskDto.taskId other rows').map TaskDto.status =
      if other = id then some status else (lastRow? TaskDto.taskId other rows).map TaskDto.status)
    (hcount : ∀ q : Int → Bool, rows'.countP (fun task ↦ q task.status) + (q sample.status).toNat =
      rows.countP (fun task ↦ q task.status) + (q status).toNat)
    (hroom : rows'.length ≤ maxU32) :
    Counted (({ a with tasks := Function.update a.tasks id (some new) }.removeStatus
      sample.status).addStatus status) rows' := by
  subst hnew
  obtain ⟨row, hrow, hstatus⟩ := h.status hsample
  have hpart : ∀ q : Int → Bool, (q sample.status).toNat ≤ rows.countP fun task ↦ q task.status := by
    intro q
    have hle := lastRow_le_countP (fun task ↦ q task.status) id rows
    rwa [hrow, Option.map_some, Option.getD_some, hstatus] at hle
  have hlength : ∀ q : Int → Bool, rows'.countP (fun task ↦ q task.status) ≤ maxU32 := fun q ↦
    Nat.le_trans List.countP_le_length hroom
  refine ⟨hdistinct, ?_, ?_, ?_, ?_⟩
  · intro other
    rw [hrows other]
    change (Function.update a.tasks id (some new) other).map TaskSample.status = _
    rw [Function.update_apply]
    split
    · rfl
    · exact h.sampled other
  · have hsum := hcount isActive
    have hle := hpart isActive
    have hbound := hlength isActive
    change min (a.active - (isActive sample.status).toNat + (isActive new.status).toNat) maxU32 = _
    rw [h.active]
    omega
  · have hsum := hcount (· == 0)
    have hle := hpart (· == 0)
    have hbound := hlength (· == 0)
    change min (a.pending - (sample.status == 0).toNat + (new.status == 0).toNat) maxU32 = _
    rw [h.pending]
    omega
  · have hle := hpart isActive
    have hle' := hpart (· == 0)
    change a.clamps + (if a.active < (isActive sample.status).toNat then 1 else 0) +
      (if a.pending < (sample.status == 0).toNat then 1 else 0) = 0
    rw [h.active, h.pending, h.clamps, if_neg (Nat.not_lt.mpr hle), if_neg (Nat.not_lt.mpr hle')]

/-- A status is added, as the rows do it. -/
theorem counted_add {rows' : List (TaskDto P)} (h : Counted a rows) {id : String}
    {new : TaskSample} (hdistinct : (rows'.map TaskDto.taskId).Nodup)
    (hrows : ∀ other, (lastRow? TaskDto.taskId other rows').map TaskDto.status =
      if other = id then some new.status else (lastRow? TaskDto.taskId other rows).map TaskDto.status)
    (hcount : ∀ q : Int → Bool, rows'.countP (fun task ↦ q task.status) =
      rows.countP (fun task ↦ q task.status) + (q new.status).toNat)
    (hroom : rows'.length ≤ maxU32) :
    Counted ({ a with tasks := Function.update a.tasks id (some new) }.addStatus new.status)
      rows' := by
  have hlength : ∀ q : Int → Bool, rows'.countP (fun task ↦ q task.status) ≤ maxU32 := fun q ↦
    Nat.le_trans List.countP_le_length hroom
  refine ⟨hdistinct, ?_, ?_, ?_, h.clamps⟩
  · intro other
    rw [hrows other]
    change (Function.update a.tasks id (some new) other).map TaskSample.status = _
    rw [Function.update_apply]
    split
    · rfl
    · exact h.sampled other
  · have hsum := hcount isActive
    have hbound := hlength isActive
    change min (a.active + (isActive new.status).toNat) maxU32 = _
    rw [h.active]
    omega
  · have hsum := hcount (· == 0)
    have hbound := hlength (· == 0)
    change min (a.pending + (new.status == 0).toNat) maxU32 = _
    rw [h.pending]
    omega

/-- A row that is changed or added. -/
theorem counted_baseline (h : Counted a rows) (task : TaskDto P) (now : Nat)
    (hroom : (upsertRow TaskDto.taskId task rows).length ≤ maxU32) :
    Counted (a.baseline task now) (upsertRow TaskDto.taskId task rows) := by
  have hrows : ∀ other, (lastRow? TaskDto.taskId other (upsertRow TaskDto.taskId task rows)).map
      TaskDto.status = if other = task.taskId then some task.status
        else (lastRow? TaskDto.taskId other rows).map TaskDto.status := by
    intro other
    rw [lastRow?_upsertRow]
    split <;> rfl
  have hcount : ∀ q : Int → Bool, _ := fun q ↦
    countP_upsertRow TaskDto.taskId (fun row ↦ q row.status) task rows
  have hdistinct := nodup_upsertRow h.distinct task
  unfold RuntimeAccounting.baseline
  split
  · next sample hsample =>
    obtain ⟨row, hrow, hstatus⟩ := h.status hsample
    refine counted_exchange h hsample rfl hdistinct hrows ?_ hroom
    intro q
    have hsum := hcount q
    rwa [hrow, Option.map_some, Option.getD_some, hstatus] at hsum
  · next hsample =>
    refine counted_add h hdistinct hrows ?_ hroom
    intro q
    have hsum := hcount q
    rwa [h.no_row hsample, Option.map_none, Option.getD_none, Nat.add_zero] at hsum

/-- A row that is removed. -/
theorem counted_remove (h : Counted a rows) (id : String) :
    Counted (a.remove id) (rows.filter fun row ↦ row.taskId ∉ [id]) := by
  have hrows : ∀ other, lastRow? TaskDto.taskId other (rows.filter fun row ↦ row.taskId ∉ [id]) =
      if other = id then none else lastRow? TaskDto.taskId other rows := by
    intro other
    rw [lastRow?_filter]
    simp only [List.mem_singleton]
  have hcount : ∀ q : Int → Bool, _ := fun q ↦
    countP_filter_ne TaskDto.taskId (fun row ↦ q row.status) h.distinct id
  have hdistinct : ((rows.filter fun row ↦ row.taskId ∉ [id]).map TaskDto.taskId).Nodup :=
    h.distinct.sublist (List.filter_sublist.map _)
  unfold RuntimeAccounting.remove
  split
  · next hsample =>
    have hnone := h.no_row hsample
    have hall : rows.filter (fun row ↦ row.taskId ∉ [id]) = rows := by
      rw [List.filter_eq_self]
      intro row hrow
      simpa using lastRow?_eq_none_iff.mp hnone row hrow
    rwa [hall]
  · next sample hsample =>
    obtain ⟨row, hrow, hstatus⟩ := h.status hsample
    have hsum : ∀ q : Int → Bool, (rows.filter fun row ↦ row.taskId ∉ [id]).countP
        (fun row ↦ q row.status) + (q sample.status).toNat = rows.countP fun row ↦ q row.status := by
      intro q
      have hsum := hcount q
      rwa [hrow, Option.map_some, Option.getD_some, hstatus] at hsum
    have hactive := hsum isActive
    have hpending := hsum (· == 0)
    refine ⟨hdistinct, ?_, ?_, ?_, ?_⟩
    · intro other
      rw [hrows other]
      change (Function.update a.tasks id none other).map TaskSample.status = _
      rw [Function.update_apply]
      split
      · rfl
      · exact h.sampled other
    · change a.active - (isActive sample.status).toNat = _
      rw [h.active]
      omega
    · change a.pending - (sample.status == 0).toNat = _
      rw [h.pending]
      omega
    · change a.clamps + (if a.active < (isActive sample.status).toNat then 1 else 0) +
        (if a.pending < (sample.status == 0).toNat then 1 else 0) = 0
      rw [h.active, h.pending, h.clamps, if_neg (by omega), if_neg (by omega)]

/-! ### A new table -/

/-- The counters of the rows that were taken so far; samples of rows to come are still old. -/
private structure Reconciling (a : RuntimeAccounting) (done todo : List (TaskDto P)) : Prop where
  sampled : ∀ id, id ∉ todo.map TaskDto.taskId → (a.tasks id).map TaskSample.status =
    (lastRow? TaskDto.taskId id done).map TaskDto.status
  active : a.active = done.countP fun task ↦ isActive task.status
  pending : a.pending = done.countP fun task ↦ task.status == 0
  clamps : a.clamps = 0

private theorem reconciling_step {done todo : List (TaskDto P)} {task : TaskDto P}
    (h : Reconciling a done (task :: todo)) (hroom : done.length < maxU32) :
    Reconciling (a.reconcileTask task) (done ++ [task]) todo := by
  have hcount : ∀ q : TaskDto P → Bool,
      (done ++ [task]).countP q = done.countP q + (q task).toNat := by
    intro q
    rw [List.countP_append, List.countP_singleton]
    cases q task <;> rfl
  have hbound : ∀ q : TaskDto P → Bool, done.countP q + (q task).toNat ≤ maxU32 := by
    intro q
    have hle := List.countP_le_length (p := q) (l := done)
    have hone := Bool.toNat_le (q task)
    omega
  refine ⟨?_, ?_, ?_, h.clamps⟩
  · intro id hid
    change (Function.update a.tasks task.taskId (some _) id).map TaskSample.status = _
    rw [Function.update_apply, lastRow?_append, lastRow?_cons]
    by_cases hsame : id = task.taskId
    · rw [if_pos hsame, if_pos hsame.symm]
      simp only [lastRow?_nil, Option.none_or, Option.some_or, Option.map_some]
      split <;> rfl
    · rw [if_neg hsame, if_neg (Ne.symm hsame)]
      simp only [lastRow?_nil, Option.none_or]
      apply h.sampled
      rw [List.map_cons, List.mem_cons, not_or]
      exact ⟨hsame, hid⟩
  · change min (a.active + (isActive task.status).toNat) maxU32 = _
    rw [h.active, hcount, Nat.min_eq_left (hbound fun task ↦ isActive task.status)]
  · change min (a.pending + (task.status == 0).toNat) maxU32 = _
    rw [h.pending, hcount, Nat.min_eq_left (hbound fun task ↦ task.status == 0)]

private theorem reconciling_fold {done todo : List (TaskDto P)} (h : Reconciling a done todo)
    (hroom : (done ++ todo).length ≤ maxU32) :
    Reconciling (todo.foldl reconcileTask a) (done ++ todo) [] := by
  induction todo generalizing a done with
  | nil => rwa [List.append_nil]
  | cons task todo ih =>
    rw [List.length_append, List.length_cons] at hroom
    have hstep := reconciling_step h (by omega)
    rw [List.foldl_cons, List.append_cons]
    apply ih hstep
    rw [List.length_append, List.length_append, List.length_singleton]
    omega

/-- A table that is taken as a whole. -/
theorem counted_reconcile (hclamps : a.clamps = 0) {tasks : List (TaskDto P)}
    (hdistinct : (tasks.map TaskDto.taskId).Nodup) (hroom : tasks.length ≤ maxU32) :
    Counted (a.reconcile tasks) tasks := by
  have hstart : Reconciling { a with
      tasks := fun id ↦ if id ∈ tasks.map TaskDto.taskId then a.tasks id else none
      active := 0
      pending := 0 } [] tasks := by
    refine ⟨?_, rfl, rfl, hclamps⟩
    intro id hid
    simp only [if_neg hid, lastRow?_nil, Option.map_none]
  have hdone := reconciling_fold hstart hroom
  exact ⟨hdistinct, fun id ↦ hdone.sampled id List.not_mem_nil, hdone.active, hdone.pending,
    hdone.clamps⟩

/-! ### Rows that are rewritten -/

/-- A rewriting of a row that keeps its status. -/
theorem counted_keep (h : Counted a rows) {id : String} {f : TaskDto P → TaskDto P}
    (hf : KeepsKey TaskDto.taskId id f) (hstatus : ∀ row, (f row).status = row.status) :
    Counted a (modifyRow TaskDto.taskId id f rows) := by
  have hcount : ∀ q : Int → Bool, (modifyRow TaskDto.taskId id f rows).countP
      (fun row ↦ q row.status) = rows.countP fun row ↦ q row.status := by
    intro q
    have hsum := countP_modifyRow (f := f) TaskDto.taskId (fun row ↦ q row.status) id rows
    simp only [hstatus] at hsum
    exact Nat.add_right_cancel hsum
  refine ⟨?_, ?_, ?_, ?_, h.clamps⟩
  · rw [map_key_modifyRow hf]
    exact h.distinct
  · intro other
    rw [lastRow?_modifyRow hf, h.sampled other]
    split
    · cases lastRow? TaskDto.taskId other rows with
      | none => rfl
      | some row => exact congrArg some (hstatus row).symm
    · rfl
  · rw [hcount isActive]
    exact h.active
  · rw [hcount (· == 0)]
    exact h.pending

/-- A progress message. -/
theorem counted_progress (h : Counted a rows) (progress : TaskProgress) (now : Nat)
    (hroom : (engineRows rows (.taskProgress progress)).length ≤ maxU32) :
    Counted (a.applyProgress progress now) (engineRows rows (.taskProgress progress)) := by
  unfold RuntimeAccounting.applyProgress
  simp only [engineRows] at hroom ⊢
  by_cases hdeleted : progress.deleted = true
  · rw [if_pos hdeleted, if_pos hdeleted]
    exact counted_remove h progress.taskId
  · rw [if_neg hdeleted] at hroom
    rw [if_neg hdeleted, if_neg hdeleted]
    have hkeep : KeepsKey TaskDto.taskId progress.taskId (progress.update (P := P)) :=
      fun _ hrow ↦ hrow
    split
    · next hsample => rwa [modifyRow_of_none (h.no_row hsample)]
    · next sample hsample =>
      obtain ⟨row, hrow, hstatus⟩ := h.status hsample
      apply Counted.same (same_recordTraffic ..)
      refine counted_exchange h hsample rfl ?_ ?_ ?_ ?_
      · rw [map_key_modifyRow hkeep]
        exact h.distinct
      · intro other
        rw [lastRow?_modifyRow hkeep]
        split
        · next hsame => rw [hsame, hrow]; rfl
        · rfl
      · intro q
        have hsum := countP_modifyRow (f := progress.update) TaskDto.taskId
          (fun row : TaskDto P ↦ q row.status) progress.taskId rows
        rwa [hrow, Option.map_some, Option.getD_some, Option.map_some, Option.getD_some,
          hstatus] at hsum
      · exact hroom

/-! ### Batches -/

private theorem length_le_upsertRows (tasks rows : List (TaskDto P)) :
    rows.length ≤
      (tasks.foldl (fun rows task ↦ upsertRow TaskDto.taskId task rows) rows).length := by
  induction tasks generalizing rows with
  | nil => exact Nat.le_refl _
  | cons task tasks ih => exact (length_le_upsertRow task rows).trans (ih _)

/-- Rows that are changed or added. -/
theorem counted_tasksChanged (h : Counted a rows) (tasks : List (TaskDto P)) (now : Nat)
    (hroom : (tasks.foldl (fun rows task ↦ upsertRow TaskDto.taskId task rows) rows).length ≤
      maxU32) :
    Counted (tasks.foldl (fun a task ↦ a.baseline task now) a)
      (tasks.foldl (fun rows task ↦ upsertRow TaskDto.taskId task rows) rows) := by
  induction tasks generalizing a rows with
  | nil => exact h
  | cons task tasks ih =>
    -- The batch only adds rows, so there was room for the first one.
    have hfirst := (length_le_upsertRows tasks (upsertRow TaskDto.taskId task rows)).trans hroom
    exact ih (counted_baseline h task now hfirst) hroom

/-- Rows that are removed. -/
theorem counted_tasksDeleted (h : Counted a rows) (taskIds : List String) :
    Counted (taskIds.foldl remove a) (rows.filter fun row ↦ row.taskId ∉ taskIds) := by
  induction taskIds generalizing a rows with
  | nil => simpa using h
  | cons id taskIds ih =>
    have hrows : rows.filter (fun row ↦ row.taskId ∉ id :: taskIds) =
        (rows.filter fun row ↦ row.taskId ∉ [id]).filter fun row ↦ row.taskId ∉ taskIds := by
      rw [List.filter_filter]
      apply List.filter_congr
      intro row _
      simp [Bool.and_comm]
    rw [hrows]
    exact ih (counted_remove h id)

/-- Rows whose files vanished or came back. -/
theorem counted_fileMissing (h : Counted a rows) (updates : List FileMissingUpdateDto) :
    Counted a (updates.foldl (fun rows update ↦
      modifyRow TaskDto.taskId update.taskId update.markTask rows) rows) := by
  induction updates generalizing rows with
  | nil => exact h
  | cons update updates ih => exact ih (counted_keep h (fun _ hrow ↦ hrow) fun _ ↦ rfl)

/-! ### Transfers -/

/-- A sample that keeps its status. -/
theorem counted_resample (h : Counted a rows) (id : String)
    (f : Option TaskSample → Option TaskSample)
    (hf : ∀ sample, (f sample).map TaskSample.status = sample.map TaskSample.status) :
    Counted { a with tasks := Function.update a.tasks id (f (a.tasks id)) } rows := by
  refine ⟨h.distinct, ?_, h.active, h.pending, h.clamps⟩
  intro other
  change (Function.update a.tasks id (f (a.tasks id)) other).map TaskSample.status = _
  rw [Function.update_apply, ← h.sampled other]
  split
  · next hsame => rw [hf, hsame]
  · rfl

private theorem counted_transferBaseline (h : Counted a rows) (taskId : String)
    (downloadedBytes : Int) : Counted (a.transferBaseline taskId downloadedBytes) rows := by
  apply counted_resample h taskId (Option.map _)
  intro sample
  cases sample <;> rfl

private theorem counted_settleDownload (h : Counted a rows) (taskId : String)
    (downloadedBytes : Int) (now : Nat) :
    Counted (a.settleDownload taskId downloadedBytes now) rows := by
  unfold RuntimeAccounting.settleDownload
  split
  · exact h
  · next sample hsample =>
    apply Counted.same (same_recordTraffic ..)
    refine ⟨h.distinct, ?_, h.active, h.pending, h.clamps⟩
    have hresample := counted_resample h taskId (Option.map fun sample ↦
      { sample with downloaded := max sample.downloaded downloadedBytes, lastAt := some now }) (by
        intro sample
        cases sample <;> rfl)
    rw [hsample] at hresample
    exact hresample.sampled

private theorem counted_recordTransfer (h : Counted a rows) (taskId : String) (bytes : Int)
    (now : Nat) : Counted (a.recordTransfer taskId bytes now) rows := by
  unfold RuntimeAccounting.recordTransfer
  split
  · exact h
  · next sample hsample =>
    apply Counted.same (same_recordTraffic ..)
    have hresample := counted_resample h taskId (Option.map fun sample ↦
      { sample with transferMeasured := true, lastAt := some now }) (by
        intro sample
        cases sample <;> rfl)
    rw [hsample] at hresample
    exact hresample

/-! ## Every event -/

/-- Full tables have distinct ids, and the tables are not announced to be reloaded. -/
def Publishable : DaemonEvent P → Prop
  | .snapshotReplaced snapshot => (snapshot.tasks.map TaskDto.taskId).Nodup
  | .engine (.tasksSnapshot tasks) => (tasks.map TaskDto.taskId).Nodup
  | .tablesReloading tasks _ => tasks = none
  | _ => True

private theorem counted_engine (h : Counted a rows) (message : WsServerMsg P)
    (hmessage : Publishable (.engine message)) (now : Nat)
    (hroom : (engineRows rows message).length ≤ maxU32) :
    Counted (a.apply (.engine message) now) (engineRows rows message) := by
  cases message with
  | tasksSnapshot tasks => exact counted_reconcile h.clamps hmessage hroom
  | taskProgress progress => exact counted_progress h progress now hroom
  | taskMetaProbed => exact counted_keep h (fun _ hrow ↦ hrow) fun _ ↦ rfl
  | taskQueueChanged => exact counted_keep h (fun _ hrow ↦ hrow) fun _ ↦ rfl
  | taskRouteChanged => exact counted_keep h (fun _ hrow ↦ hrow) fun _ ↦ rfl
  | fileMissingChanged updates => exact counted_fileMissing h updates
  | _ => exact h

/-- The samples take each event as the rows do. -/
theorem counted_apply (h : Counted a rows) (event : DaemonEvent P)
    (hevent : Publishable event) (now : Nat) (hroom : (rowsAfter rows event).length ≤ maxU32) :
    Counted (a.apply event now) (rowsAfter rows event) := by
  cases event with
  | snapshotReplaced snapshot => exact counted_reconcile h.clamps hevent hroom
  | tablesReloading tasks queue =>
    have hnone : tasks = none := hevent
    subst hnone
    exact h
  | engine message => exact counted_engine h message hevent now hroom
  | taskChanged task => exact counted_baseline h task now hroom
  | tasksChanged tasks => exact counted_tasksChanged h tasks now hroom
  | taskDeleted taskId => exact counted_remove h taskId
  | tasksDeleted taskIds => exact counted_tasksDeleted h taskIds
  | _ => exact h

/-! ## The hub -/

namespace EventState

/-- The samples and counters of the hub are those of its projection. -/
def Agrees (state : EventState P) : Prop := Counted state.accounting state.snapshot.tasks

private theorem agrees_updateRuntimeStats (state : EventState P) (now : Nat) (h : state.Agrees) :
    (updateRuntimeStats state now).Agrees :=
  Counted.same (same_rates state.accounting now) h

private theorem agrees_new (epoch : String) {snapshot : DaemonSnapshot P} (now : Nat)
    (hdistinct : (snapshot.tasks.map TaskDto.taskId).Nodup)
    (hroom : snapshot.tasks.length ≤ maxU32) : (EventState.new epoch snapshot now).Agrees := by
  have hcounted : Counted (RuntimeAccounting.new snapshot.tasks now) snapshot.tasks :=
    counted_reconcile rfl hdistinct hroom
  exact agrees_updateRuntimeStats
    ⟨epoch, 0, snapshot, RuntimeAccounting.new snapshot.tasks now⟩ now hcounted

private theorem agrees_publishLockedAt {state : EventState P} (h : state.Agrees)
    (event : DaemonEvent P) (hevent : Publishable event) (now : Nat)
    (hroom : (applyDaemonEvent state.snapshot event).tasks.length ≤ maxU32) :
    (state.publishLockedAt event now).Agrees := by
  rw [tasks_applyDaemonEvent] at hroom
  have hcounted := counted_apply h event hevent now hroom
  rw [← tasks_applyDaemonEvent] at hcounted
  exact agrees_updateRuntimeStats
    { state with
      accounting := state.accounting.apply event now
      snapshot := applyDaemonEvent state.snapshot event } now hcounted

/-- An event that carries counters leaves the tasks alone. -/
theorem agrees_publishStats {state : EventState P} (h : state.Agrees)
    (stats : DaemonRuntimeStatsDto) (now : Nat) :
    (state.publishLockedAt (.runtimeStatsChanged stats) now).Agrees :=
  agrees_updateRuntimeStats
    { state with snapshot := applyDaemonEvent state.snapshot (.runtimeStatsChanged stats) } now h

/-- A published event has distinct ids and leaves fewer than 2^32 tasks. -/
def Fits (state : EventState P) : HubOp P → Prop
  | .publish event _ =>
    Publishable event ∧ (applyDaemonEvent state.snapshot event).tasks.length < 2 ^ 32
  | _ => True

private theorem agrees_publish {state : EventState P} (h : state.Agrees) (event : DaemonEvent P)
    (hevent : Publishable event) (now : Nat)
    (hroom : (applyDaemonEvent state.snapshot event).tasks.length ≤ maxU32) :
    (state.publish event now).Agrees := by
  have hafter := agrees_publishLockedAt h event hevent now hroom
  unfold EventState.publish
  generalize state.publishLockedAt event now = after at hafter
  -- Whether the counters are published as well does not matter.
  extract_lets
  generalize (!_ && (_ || _) : Bool) = changed
  cases changed with
  | true => exact agrees_publishStats hafter _ now
  | false => exact hafter

private theorem agrees_step (state : EventState P) (op : HubOp P) (h : state.Agrees)
    (hfits : state.Fits op) : (state.step op).Agrees := by
  cases op with
  | publish event now =>
    exact agrees_publish h event hfits.1 now (Nat.le_sub_one_of_lt hfits.2)
  | setRetryPendingTasks count now =>
    simp only [EventState.step, EventState.setRetryPendingTasks]
    split
    · exact h
    · exact agrees_publishStats h _ now
  | taskTransferred taskId bytes now => exact counted_recordTransfer h taskId bytes now
  | taskTransferBaseline taskId downloadedBytes previous now =>
    simp only [EventState.step]
    cases previous with
    | none => exact counted_transferBaseline h taskId downloadedBytes
    | some previous =>
      exact counted_transferBaseline (counted_settleDownload h taskId previous now) taskId
        downloadedBytes
  | expire now =>
    have hafter := agrees_updateRuntimeStats state now h
    simp only [EventState.step, EventState.expireLockedAt]
    split
    · exact agrees_publishStats hafter _ now
    · exact hafter

/-- The counters, and the tasks that are sampled, are those of the projection after every run in
which the projection stays below 2^32 tasks. -/
theorem counters_agree (epoch : String) (snapshot : DaemonSnapshot P) (now : Nat)
    (ops : List (HubOp P)) (hdistinct : (snapshot.tasks.map TaskDto.taskId).Nodup)
    (hroom : snapshot.tasks.length < 2 ^ 32)
    (hfits : EveryStep EventState.step Fits (EventState.new epoch snapshot now) ops) :
    (run EventState.step (EventState.new epoch snapshot now) ops).Agrees :=
  run_invariant agrees_step (agrees_new epoch now hdistinct (Nat.le_sub_one_of_lt hroom)) hfits

end EventState

/-- A task with some status. -/
def sampleTask (taskId : String) (status : Int) : TaskDto noPayloads :=
  ⟨taskId, "https://host/file", "file", "/save", status, 0, 100, "", "", false, "", 0, 0, "", 0, ()⟩

/-- A projection of some tasks that transfer. -/
def busySnapshot (count : Nat) : DaemonSnapshot noPayloads :=
  { DaemonSnapshot.initial with
    tasks := (List.range count).map fun n ↦ sampleTask (String.ofList (List.replicate n '0')) 1 }

/-- Tasks are added and one of them is reported as deleted. -/
def sampleHubOps : List (HubOp noPayloads) :=
  [.publish (.tasksChanged [sampleTask "1" 0, sampleTask "" 5]) 1000,
    .taskTransferred "" 40 2000,
    .publish (.engine (.taskProgress
      ⟨"1", 4, 0, 0, 0, 0, "", "", "", "deleted", 0, 0, "", 0⟩)) 3000,
    .expire 4000]

/-- A run of a hub with a task. -/
theorem counters_agree_sample :
    (run EventState.step (EventState.new "epoch" (busySnapshot 1) 0) sampleHubOps).Agrees :=
  EventState.counters_agree "epoch" (busySnapshot 1) 0 sampleHubOps (by decide) (by decide)
    ⟨⟨trivial, by decide +kernel⟩, trivial, ⟨trivial, by decide +kernel⟩, trivial, trivial⟩

/-! ## Where the counters part from the projection -/

private theorem nodup_busySnapshot (count : Nat) :
    ((busySnapshot count).tasks.map TaskDto.taskId).Nodup := by
  have hids : (busySnapshot count).tasks.map TaskDto.taskId =
      (List.range count).map fun n ↦ String.ofList (List.replicate n '0') := by
    rw [busySnapshot, List.map_map]
    rfl
  rw [hids]
  apply List.nodup_range.map
  intro n m h
  have hlength := congrArg (fun id ↦ id.toList.length) h
  simpa using hlength

private theorem countP_busySnapshot (count : Nat) :
    ((busySnapshot count).tasks.countP fun task ↦ isActive task.status) = count := by
  have hall : ∀ task ∈ (busySnapshot count).tasks, isActive task.status = true := by
    intro task htask
    obtain ⟨n, _, rfl⟩ := List.mem_map.mp htask
    rfl
  rw [List.countP_eq_length.mpr hall, busySnapshot, List.length_map, List.length_range]

private theorem active_reconcile_le (a : RuntimeAccounting) (tasks : List (TaskDto P)) :
    (a.reconcile tasks).active ≤ maxU32 := by
  unfold RuntimeAccounting.reconcile
  apply List.foldlRecOn (motive := fun b : RuntimeAccounting ↦ b.active ≤ maxU32)
  · exact Nat.zero_le _
  · intro b _ task _
    exact Nat.min_le_right _ _

private theorem active_new_le (epoch : String) (snapshot : DaemonSnapshot P) (now : Nat) :
    (EventState.new epoch snapshot now).accounting.active ≤ maxU32 := by
  change ((RuntimeAccounting.new snapshot.tasks now).rates now).1.active ≤ maxU32
  rw [(same_rates _ now).active]
  exact active_reconcile_le _ snapshot.tasks

/-- More tasks transfer than the counter can hold. -/
theorem not_agrees_of_lt {count : Nat} (hcount : maxU32 < count) (epoch : String)
    (now : Nat) : ¬(EventState.new epoch (busySnapshot count) now).Agrees := by
  intro h
  have hle := active_new_le epoch (busySnapshot count) now
  have hactive : (EventState.new epoch (busySnapshot count) now).accounting.active = count :=
    h.active.trans (countP_busySnapshot count)
  omega

/-- With 2^32 active tasks the counter stops one short of them, and an announced reload clears
the rows but no sample. -/
theorem counters_part :
    ((busySnapshot (2 ^ 32)).tasks.map TaskDto.taskId).Nodup ∧
      ¬(EventState.new "epoch" (busySnapshot (2 ^ 32)) 0).Agrees ∧
      ((busySnapshot 1).tasks.map TaskDto.taskId).Nodup ∧
      ¬((EventState.new "epoch" (busySnapshot 1) 0).step
        (.publish (.tablesReloading (some 1) none) 0)).Agrees := by
  refine ⟨nodup_busySnapshot _, not_agrees_of_lt (by decide) _ _, nodup_busySnapshot _, ?_⟩
  intro h
  have hactive := h.active
  revert hactive
  decide +kernel

end Daemon
