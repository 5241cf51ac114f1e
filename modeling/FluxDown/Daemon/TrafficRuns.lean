import FluxDown.Daemon.Traffic

/-!
# Runs of the accounting

Library `Daemon`. At instants that do not decrease no bucket is ahead of the instant that comes, so
every call finds room for its bytes. A progress message calls with what the high-water mark of its
task gains, so the ring has received of a task what its mark has gained.
-/

namespace Daemon

open Base Protocol

variable {P : Payloads}

namespace RuntimeAccounting

/-! ## Runs of calls -/

/-- What happens to the ring. -/
inductive TrafficOp where
  | record (downloaded uploaded : Int) (since : Option Nat) (now : Nat)
  | rates (now : Nat)

namespace TrafficOp

/-- The instant of an operation. -/
def time : TrafficOp → Nat
  | record _ _ _ now => now
  | rates now => now

/-- Differences are signed numbers of 64 bits, and none is negative. -/
def Valid : TrafficOp → Prop
  | record downloaded uploaded _ _ =>
    (0 ≤ downloaded ∧ downloaded ≤ maxI64) ∧ 0 ≤ uploaded ∧ uploaded ≤ maxI64
  | rates _ => True

instance : DecidablePred Valid
  | record .. => inferInstanceAs (Decidable (_ ∧ _))
  | rates _ => .isTrue trivial

end TrafficOp

/-- One operation on the ring. -/
def trafficStep (a : RuntimeAccounting) : TrafficOp → RuntimeAccounting
  | .record downloaded uploaded since now => a.recordTraffic downloaded uploaded since now
  | .rates now => (a.rates now).1

/-! ## What a step at an instant keeps -/

private theorem origin_addToBucket (a : RuntimeAccounting) (tick : Nat)
    (downloaded uploaded : Int) :
    (a.addToBucket tick downloaded uploaded).origin = a.origin := by
  unfold addToBucket
  dsimp only
  split
  · rfl
  · rfl

private theorem origin_recordTraffic (a : RuntimeAccounting) (downloaded uploaded : Int)
    (since : Option Nat) (now : Nat) :
    (a.recordTraffic downloaded uploaded since now).origin = a.origin := by
  by_cases hbytes : downloaded = 0 ∧ uploaded = 0
  · unfold recordTraffic
    rw [if_pos hbytes]
  obtain ⟨b, -, horigin, heq⟩ := a.exists_spread_eq downloaded uploaded since now hbytes
  rw [heq, spread_eq, ← horigin]
  have hstep : ∀ acc tick, acc.1.origin = b.origin →
      (spreadTick (a.spreadStart since now) (a.micros now) downloaded uploaded acc tick).1.origin =
        b.origin := by
    intro acc tick h
    unfold spreadTick
    split
    exact (origin_addToBucket ..).trans h
  exact run_preserves hstep rfl _

private theorem tick_mono (a : RuntimeAccounting) {now now' : Nat} (h : now ≤ now') :
    a.tick now ≤ a.tick now' := by
  unfold RuntimeAccounting.tick micros
  exact Nat.div_le_div_right (Nat.div_le_div_right (Nat.sub_le_sub_right h _))

/-- No high-water mark is negative. -/
def Marked (a : RuntimeAccounting) : Prop :=
  ∀ id sample, a.tasks id = some sample → 0 ≤ sample.downloaded

private theorem Marked.same {a b : RuntimeAccounting} (h : a.Marked) (hsame : Same a b) :
    b.Marked := by
  unfold Marked
  rw [hsame.tasks]
  exact h

/-- A changed row whose mark is not negative. -/
theorem marked_update {a : RuntimeAccounting} (h : a.Marked) {id : String}
    {sample? : Option TaskSample} (hsample : ∀ sample, sample? = some sample → 0 ≤ sample.downloaded)
    {b : RuntimeAccounting} (hb : b.tasks = Function.update a.tasks id sample?) : b.Marked := by
  intro other sample hother
  rw [hb, Function.update_apply] at hother
  split at hother
  · exact hsample sample hother
  · exact h other sample hother

private theorem downloaded_reported_nonneg {sample : TaskSample} (h : 0 ≤ sample.downloaded)
    (task : TaskDto P) :
    0 ≤ (reported sample task).downloaded := by
  unfold reported
  dsimp only
  split
  · exact h
  · exact le_max_of_le_left h

private theorem marked_baseline {a : RuntimeAccounting} (h : a.Marked) (task : TaskDto P)
    (now : Nat) :
    (a.baseline task now).Marked := by
  unfold baseline
  split
  · next sample hsample =>
    refine marked_update h (fun sample' hsample' ↦ ?_) rfl
    obtain rfl := Option.some.inj hsample'
    exact downloaded_reported_nonneg (h _ _ hsample) task
  · refine marked_update h (fun sample' hsample' ↦ ?_) rfl
    obtain rfl := Option.some.inj hsample'
    exact le_max_right _ _

private theorem marked_reconcile {a : RuntimeAccounting} (h : a.Marked) (tasks : List (TaskDto P)) :
    (a.reconcile tasks).Marked := by
  have hstep : ∀ (b : RuntimeAccounting) (task : TaskDto P), b.Marked →
      (b.reconcileTask task).Marked := by
    intro b task hb
    refine marked_update hb (fun sample' hsample' ↦ ?_) rfl
    obtain rfl := Option.some.inj hsample'
    split
    · next sample hsample => exact downloaded_reported_nonneg (hb _ _ hsample) task
    · exact le_max_right _ _
  apply run_preserves hstep
  intro id sample hsample
  dsimp only at hsample
  split at hsample
  · exact h id sample hsample
  · cases hsample

private theorem marked_remove {a : RuntimeAccounting} (h : a.Marked) (taskId : String) :
    (a.remove taskId).Marked := by
  unfold remove
  split
  · exact h
  · exact marked_update h (fun _ hnone ↦ by cases hnone) rfl

private theorem marked_transferBaseline {a : RuntimeAccounting} (h : a.Marked) (taskId : String)
    (downloadedBytes : Int) : (a.transferBaseline taskId downloadedBytes).Marked := by
  refine marked_update h (fun sample' hsample' ↦ ?_) rfl
  obtain ⟨sample, -, rfl⟩ := Option.map_eq_some_iff.mp hsample'
  exact le_max_right _ _

/-- What happens at `now` keeps the origin, leaves no bucket ahead of `now`, and makes no mark
negative. -/
structure Keeps (now : Nat) (a b : RuntimeAccounting) : Prop where
  origin : b.origin = a.origin
  ticked : a.Ticked (a.tick now) → b.Ticked (a.tick now)
  marked : a.Marked → b.Marked

section Keeps

variable {a b d : RuntimeAccounting} {now : Nat}

private theorem Keeps.refl (a : RuntimeAccounting) (now : Nat) : Keeps now a a := ⟨rfl, id, id⟩

private theorem Keeps.trans (h : Keeps now a b) (h' : Keeps now b d) : Keeps now a d where
  origin := h'.origin.trans h.origin
  ticked hticked := by
    have htick : b.tick now = a.tick now := by
      unfold RuntimeAccounting.tick micros
      rw [h.origin]
    have hlast := h'.ticked
    rw [htick] at hlast
    exact hlast (h.ticked hticked)
  marked hmarked := h'.marked (h.marked hmarked)

private theorem Ticked.of_buckets {latest : Nat} (h : a.Ticked latest)
    (hbuckets : b.buckets = a.buckets) : b.Ticked latest := fun slot ↦ by
  rw [hbuckets]
  exact h slot

/-- The ring stays as it is. -/
theorem Keeps.of_ring (horigin : b.origin = a.origin) (hbuckets : b.buckets = a.buckets)
    (hmarked : a.Marked → b.Marked) : Keeps now a b where
  origin := horigin
  ticked h := h.of_buckets hbuckets
  marked := hmarked

private theorem Keeps.foldl {α : Type*} {f : RuntimeAccounting → α → RuntimeAccounting}
    (hf : ∀ b x, Keeps now b (f b x)) (a : RuntimeAccounting) (xs : List α) :
    Keeps now a (xs.foldl f a) := by
  have hstep : ∀ b x, Keeps now a b → Keeps now a (f b x) := fun b x h ↦ h.trans (hf b x)
  exact run_preserves hstep (Keeps.refl a now) xs

private theorem keeps_recordTraffic {downloaded uploaded : Int} (hdownloaded : 0 ≤ downloaded)
    (hmaxDownloaded : downloaded ≤ maxI64) (huploaded : 0 ≤ uploaded)
    (hmaxUploaded : uploaded ≤ maxI64) (a : RuntimeAccounting) (since : Option Nat) (now : Nat) :
    Keeps now a (a.recordTraffic downloaded uploaded since now) where
  origin := a.origin_recordTraffic ..
  ticked h := ticked_recordTraffic hdownloaded hmaxDownloaded huploaded hmaxUploaded since h
  marked h := h.same (same_recordTraffic ..)

private theorem keeps_rates (a : RuntimeAccounting) (now : Nat) :
    Keeps now a (a.rates now).1 := by
  have hmarked : a.Marked → (a.rates now).1.Marked := fun h ↦ h.same (same_rates a now)
  obtain ⟨burst, published, heq⟩ := a.exists_rates_eq now
  rw [heq] at hmarked ⊢
  refine ⟨rfl, fun h slot ↦ ?_, hmarked⟩
  change TickedBy (a.tick now) slot (a.buckets.map _)[slot.val]
  rw [Vector.getElem_map]
  split
  · exact tickedBy_empty ..
  · exact h slot

private theorem keeps_baseline (a : RuntimeAccounting) (task : TaskDto P) (now : Nat) :
    Keeps now a (a.baseline task now) := by
  refine Keeps.of_ring ?_ ?_ fun h ↦ marked_baseline h task now
  · unfold baseline
    split
    · rfl
    · rfl
  · unfold baseline
    split
    · rfl
    · rfl

private theorem keeps_remove (a : RuntimeAccounting) (taskId : String) (now : Nat) :
    Keeps now a (a.remove taskId) := by
  refine Keeps.of_ring ?_ ?_ fun h ↦ marked_remove h taskId
  · unfold remove
    split
    · rfl
    · rfl
  · unfold remove
    split
    · rfl
    · rfl

private theorem ring_reconcile (a : RuntimeAccounting) (tasks : List (TaskDto P)) :
    (a.reconcile tasks).origin = a.origin ∧ (a.reconcile tasks).buckets = a.buckets := by
  have hstep : ∀ (b : RuntimeAccounting) (task : TaskDto P),
      b.origin = a.origin ∧ b.buckets = a.buckets →
        (b.reconcileTask task).origin = a.origin ∧ (b.reconcileTask task).buckets = a.buckets :=
    fun _ _ h ↦ h
  apply run_preserves hstep
  exact ⟨rfl, rfl⟩

private theorem keeps_reconcile (a : RuntimeAccounting) (tasks : List (TaskDto P)) (now : Nat) :
    Keeps now a (a.reconcile tasks) :=
  Keeps.of_ring (a.ring_reconcile tasks).1 (a.ring_reconcile tasks).2 fun h ↦
    marked_reconcile h tasks

private theorem gain_bounds (reported mark : Int) :
    0 ≤ max (saturatingSub reported mark) 0 ∧ max (saturatingSub reported mark) 0 ≤ maxI64 := by
  unfold saturatingSub clampI64 maxI64
  omega

private theorem unmeasured_bounds (measured : Bool) (reported mark : Int) :
    0 ≤ (if measured then 0 else max (saturatingSub reported mark) 0) ∧
      (if measured then 0 else max (saturatingSub reported mark) 0) ≤ maxI64 := by
  split
  · decide
  · exact gain_bounds reported mark

private theorem keeps_applyProgress (a : RuntimeAccounting) (progress : TaskProgress) (now : Nat) :
    Keeps now a (a.applyProgress progress now) := by
  unfold applyProgress
  split
  · exact keeps_remove a _ now
  · split
    · exact Keeps.refl a now
    · next sample hsample =>
      have hdown := unmeasured_bounds sample.transferMeasured progress.downloadedBytes
        sample.downloaded
      have hup := gain_bounds progress.uploadedBytes sample.uploaded
      refine Keeps.trans (Keeps.of_ring ?_ ?_ fun h ↦ ?_)
        (keeps_recordTraffic hdown.1 hdown.2 hup.1 hup.2 _ _ now)
      · rfl
      · rfl
      · refine marked_update h (fun sample' hsample' ↦ ?_) rfl
        obtain rfl := Option.some.inj hsample'
        exact le_max_of_le_left (h _ _ hsample)

private theorem keeps_settleDownload (a : RuntimeAccounting) (taskId : String)
    (downloadedBytes : Int) (now : Nat) :
    Keeps now a (a.settleDownload taskId downloadedBytes now) := by
  unfold settleDownload
  split
  · exact Keeps.refl a now
  · next sample hsample =>
    have hdown := unmeasured_bounds sample.transferMeasured downloadedBytes sample.downloaded
    refine Keeps.trans (Keeps.of_ring ?_ ?_ fun h ↦ ?_)
      (keeps_recordTraffic hdown.1 hdown.2 (le_refl _) (by decide) _ _ now)
    · rfl
    · rfl
    · refine marked_update h (fun sample' hsample' ↦ ?_) rfl
      obtain rfl := Option.some.inj hsample'
      exact le_max_of_le_left (h _ _ hsample)

private theorem keeps_recordTransfer (a : RuntimeAccounting) (taskId : String) {bytes : Int}
    (hbytes : bytes ≤ maxI64) (now : Nat) : Keeps now a (a.recordTransfer taskId bytes now) := by
  unfold recordTransfer
  split
  · exact Keeps.refl a now
  · next sample hsample =>
    refine Keeps.trans (Keeps.of_ring ?_ ?_ fun h ↦ ?_)
      (keeps_recordTraffic (le_max_right _ _) (max_le hbytes (by decide)) (le_refl _) (by decide)
        _ _ now)
    · rfl
    · rfl
    · refine marked_update h (fun sample' hsample' ↦ ?_) rfl
      obtain rfl := Option.some.inj hsample'
      exact h taskId sample hsample

private theorem keeps_transferBaseline (a : RuntimeAccounting) (taskId : String)
    (downloadedBytes : Int) (now : Nat) :
    Keeps now a (a.transferBaseline taskId downloadedBytes) :=
  Keeps.of_ring rfl rfl fun h ↦ marked_transferBaseline h taskId downloadedBytes

private theorem keeps_apply (a : RuntimeAccounting) (event : DaemonEvent P) (now : Nat) :
    Keeps now a (a.apply event now) := by
  unfold apply
  split
  · exact keeps_reconcile a _ now
  · exact keeps_reconcile a _ now
  · exact keeps_baseline a _ now
  · exact Keeps.foldl (fun b task ↦ keeps_baseline b task now) a _
  · exact keeps_remove a _ now
  · exact Keeps.foldl (fun b taskId ↦ keeps_remove b taskId now) a _
  · exact keeps_applyProgress a _ now
  · exact Keeps.refl a now

end Keeps

/-- In a run of such steps at instants that do not decrease no bucket is ahead of the instant that
comes. -/
theorem ticked_run {σ α : Type*} {step : σ → α → σ} {accounting : σ → RuntimeAccounting}
    {time : α → Nat} {ops : List α}
    (hstep : ∀ s, ∀ op ∈ ops, Keeps (time op) (accounting s) (accounting (step s op))) :
    ∀ {s : σ} {start now : Nat}, (start :: (ops.map time ++ [now])).Pairwise (· ≤ ·) →
      (accounting s).Ticked ((accounting s).tick start) →
        (accounting (run step s ops)).Ticked ((accounting (run step s ops)).tick now) := by
  induction ops with
  | nil =>
    intro s start now hsorted h
    exact h.mono (tick_mono _ ((List.pairwise_cons.mp hsorted).1 now List.mem_cons_self))
  | cons op ops ih =>
    intro s start now hsorted h
    obtain ⟨hstart, hrest⟩ := List.pairwise_cons.mp hsorted
    have hop := hstart (time op) List.mem_cons_self
    have hkeeps := hstep s op List.mem_cons_self
    have hticked := hkeeps.ticked (h.mono (tick_mono _ hop))
    apply ih (fun s op hop ↦ hstep s op (List.mem_cons_of_mem _ hop)) hrest
    unfold RuntimeAccounting.tick micros at hticked ⊢
    rw [hkeeps.origin]
    exact hticked

private theorem keeps_trafficStep (a : RuntimeAccounting) {op : TrafficOp} (hvalid : op.Valid) :
    Keeps op.time a (a.trafficStep op) := by
  cases op with
  | record downloaded uploaded since now =>
    obtain ⟨⟨hdownloaded, hmaxDownloaded⟩, huploaded, hmaxUploaded⟩ := hvalid
    exact keeps_recordTraffic hdownloaded hmaxDownloaded huploaded hmaxUploaded a since now
  | rates now => exact keeps_rates a now

private theorem ticked_new (tasks : List (TaskDto P)) (origin latest : Nat) :
    (new tasks origin).Ticked latest := by
  have hbuckets : (new tasks origin).buckets = Vector.replicate trafficBuckets {} := by
    have hstep : ∀ (b : RuntimeAccounting) (task : TaskDto P),
        b.buckets = Vector.replicate trafficBuckets {} →
          (b.reconcileTask task).buckets = Vector.replicate trafficBuckets {} := fun _ _ h ↦ h
    exact run_preserves hstep rfl tasks
  intro slot
  rw [hbuckets]
  change TickedBy latest slot (Vector.replicate trafficBuckets {})[slot.val]
  rw [Vector.getElem_replicate]
  exact tickedBy_empty latest slot

end RuntimeAccounting

open RuntimeAccounting

/-! ## Steps of the hub -/

namespace HubOp

/-- The instant of an operation. -/
def time : HubOp P → Nat
  | publish _ now => now
  | setRetryPendingTasks _ now => now
  | taskTransferred _ _ now => now
  | taskTransferBaseline _ _ _ now => now
  | expire now => now

/-- Transferred bytes are a signed number of 64 bits. -/
def InRange : HubOp P → Prop
  | taskTransferred _ bytes _ => bytes ≤ maxI64
  | _ => True

instance : DecidablePred (InRange (P := P))
  | publish .. => .isTrue trivial
  | setRetryPendingTasks .. => .isTrue trivial
  | taskTransferred _ bytes _ => inferInstanceAs (Decidable (bytes ≤ maxI64))
  | taskTransferBaseline .. => .isTrue trivial
  | expire _ => .isTrue trivial

end HubOp

private theorem keeps_updateRuntimeStats (state : EventState P) (now : Nat) :
    Keeps now state.accounting (updateRuntimeStats state now).accounting := keeps_rates _ now

private theorem keeps_publishLockedAt (state : EventState P) (event : DaemonEvent P) (now : Nat) :
    Keeps now state.accounting (state.publishLockedAt event now).accounting :=
  (keeps_apply _ event now).trans (keeps_rates _ now)

private theorem keeps_publish (state : EventState P) (event : DaemonEvent P) (now : Nat) :
    Keeps now state.accounting (state.publish event now).accounting := by
  have hafter := keeps_publishLockedAt state event now
  unfold EventState.publish
  generalize state.publishLockedAt event now = after at hafter
  extract_lets
  generalize (!_ && (_ || _) : Bool) = changed
  cases changed with
  | true => exact hafter.trans (keeps_publishLockedAt after _ now)
  | false => exact hafter

private theorem keeps_step (state : EventState P) {op : HubOp P} (hrange : op.InRange) :
    Keeps op.time state.accounting (state.step op).accounting := by
  cases op with
  | publish event now => exact keeps_publish state event now
  | setRetryPendingTasks count now =>
    simp only [EventState.step, EventState.setRetryPendingTasks]
    split
    · exact Keeps.refl _ now
    · exact keeps_publishLockedAt state _ now
  | taskTransferred taskId bytes now => exact keeps_recordTransfer _ taskId hrange now
  | taskTransferBaseline taskId downloadedBytes previous now =>
    simp only [EventState.step]
    cases previous with
    | none => exact keeps_transferBaseline _ taskId downloadedBytes now
    | some previous =>
      exact (keeps_settleDownload _ taskId previous now).trans
        (keeps_transferBaseline _ taskId downloadedBytes now)
  | expire now =>
    have hupdated := keeps_updateRuntimeStats state now
    simp only [EventState.step, EventState.expireLockedAt]
    split
    · exact hupdated.trans (keeps_publishLockedAt _ _ now)
    · exact hupdated

private theorem marked_run (epoch : String) (snapshot : DaemonSnapshot P) (start : Nat)
    {ops : List (HubOp P)} (hrange : ∀ op ∈ ops, op.InRange) :
    (run EventState.step (EventState.new epoch snapshot start) ops).accounting.Marked := by
  have hnew : (EventState.new epoch snapshot start).accounting.Marked := by
    apply (keeps_rates _ start).marked
    apply marked_reconcile
    intro id sample hsample
    cases hsample
  have hstep : ∀ (state : EventState P) (op : HubOp P), state.accounting.Marked → op.InRange →
      (state.step op).accounting.Marked := fun state op h hrange ↦ (keeps_step state hrange).marked h
  exact run_invariant hstep hnew (EveryStep.of_forall_mem (fun op hop _ ↦ hrange op hop) _)

private theorem ticked_hub (epoch : String) (snapshot : DaemonSnapshot P) {start now : Nat}
    {ops : List (HubOp P)} (hrange : ∀ op ∈ ops, op.InRange)
    (hsorted : (start :: (ops.map HubOp.time ++ [now])).Pairwise (· ≤ ·)) :
    let a := (run EventState.step (EventState.new epoch snapshot start) ops).accounting
    a.Ticked (a.tick now) := by
  have hstep : ∀ (state : EventState P), ∀ op ∈ ops,
      Keeps op.time state.accounting (state.step op).accounting :=
    fun state op hop ↦ keeps_step state (hrange op hop)
  have hnew : Keeps start (RuntimeAccounting.new snapshot.tasks start)
      (EventState.new epoch snapshot start).accounting := keeps_rates _ start
  apply ticked_run hstep hsorted
  have hticked := hnew.ticked (ticked_new snapshot.tasks start _)
  unfold RuntimeAccounting.tick micros at hticked ⊢
  rw [hnew.origin]
  exact hticked

/-! ## Runs of progress messages -/

namespace RuntimeAccounting

/-- `after` is what a call of `recordTraffic` with these bytes makes of the ring of `a`, and the
ring gets all of them. -/
structure Records (a after : RuntimeAccounting) (downloaded uploaded : Int) (since : Option Nat)
    (now : Nat) : Prop where
  call : ∃ b : RuntimeAccounting, b.buckets = a.buckets ∧ b.origin = a.origin ∧
    after = b.recordTraffic downloaded uploaded since now
  counts : ∃ shares, Counts saturatingAdd a after downloaded uploaded since now shares

/-- The downloaded bytes that the progress messages of a task bring into the ring, one after the
other. -/
inductive Received (taskId : String) : RuntimeAccounting → List (TaskProgress × Nat) → Int → Prop
  | nil (a : RuntimeAccounting) : Received taskId a [] 0
  | own {a : RuntimeAccounting} {progress : TaskProgress} {now : Nat} {downloaded uploaded : Int}
      {since : Option Nat} {messages : List (TaskProgress × Nat)} {total : Int}
      (task : progress.taskId = taskId)
      (records : Records a (a.applyProgress progress now) downloaded uploaded since now)
      (rest : Received taskId (a.applyProgress progress now) messages total) :
      Received taskId a ((progress, now) :: messages) (downloaded + total)
  | other {a : RuntimeAccounting} {progress : TaskProgress} {now : Nat}
      {messages : List (TaskProgress × Nat)} {total : Int} (task : progress.taskId ≠ taskId)
      (rest : Received taskId (a.applyProgress progress now) messages total) :
      Received taskId a ((progress, now) :: messages) total

/-- The sample of a task after a progress message. -/
def progressed (sample : TaskSample) (progress : TaskProgress) (now : Nat) : TaskSample :=
  { sample with
    status := progress.status
    downloaded := max sample.downloaded progress.downloadedBytes
    uploaded := max sample.uploaded progress.uploadedBytes
    transferMeasured := sample.transferMeasured && isActive progress.status
    lastAt := some now }

private theorem tasks_remove (a : RuntimeAccounting) (taskId : String) :
    (a.remove taskId).tasks = Function.update a.tasks taskId none := by
  unfold remove
  split
  · next hnone => rw [← hnone, Function.update_eq_self]
  · rfl

private theorem Counts.of_ring {add : Int → Int → Int} {a b after : RuntimeAccounting}
    {downloaded uploaded : Int} {since : Option Nat} {now : Nat} {shares : Nat → Int × Int}
    (h : Counts add b after downloaded uploaded since now shares) (hbuckets : b.buckets = a.buckets)
    (horigin : b.origin = a.origin) : Counts add a after downloaded uploaded since now shares := by
  have hmicros : b.micros = a.micros := by
    funext now
    unfold micros
    rw [horigin]
  have htick : b.tick = a.tick := by
    funext now
    unfold RuntimeAccounting.tick
    rw [hmicros]
  have hstart : b.spreadStart = a.spreadStart := by
    funext since now
    unfold spreadStart
    rw [hmicros]
  have hbytes : b.bytesAt = a.bytesAt := funext (bytesAt_congr hbuckets)
  obtain ⟨hnonneg, hwithin, hdown, hup, hdivides, hadded, hkept⟩ := h
  rw [htick] at hdown hup
  simp only [htick, hstart, hmicros, hbytes] at hwithin hdivides hadded hkept
  exact ⟨hnonneg, hwithin, hdown, hup, hdivides, hadded, hkept⟩

private theorem records_of_ring {a b : RuntimeAccounting} (hbuckets : b.buckets = a.buckets)
    (horigin : b.origin = a.origin) {downloaded uploaded : Int}
    (hdown : 0 ≤ downloaded ∧ downloaded ≤ maxI64) (hup : 0 ≤ uploaded ∧ uploaded ≤ maxI64)
    (since : Option Nat) {now : Nat} (hticked : a.Ticked (a.tick now)) :
    Records a (b.recordTraffic downloaded uploaded since now) downloaded uploaded since now where
  call := ⟨b, hbuckets, horigin, rfl⟩
  counts := by
    have hticked : b.Ticked (b.tick now) := by
      unfold RuntimeAccounting.tick micros at hticked ⊢
      rw [horigin]
      exact hticked.of_buckets hbuckets
    have hcounts := counts_recordTraffic hdown.1 hdown.2 hup.1 hup.2 since hticked
    exact ⟨_, hcounts.of_ring hbuckets horigin⟩

/-- A message of a task that is gone changes no bucket; of a sampled one it is a call with what the
reported values gain. -/
theorem applyProgress_cases (a : RuntimeAccounting) (progress : TaskProgress) (now : Nat) :
    ((a.applyProgress progress now).buckets = a.buckets ∧
        (a.applyProgress progress now).origin = a.origin ∧
          (a.applyProgress progress now).tasks = Function.update a.tasks progress.taskId none) ∨
      ∃ (sample : TaskSample) (b : RuntimeAccounting), a.tasks progress.taskId = some sample ∧
        (a.applyProgress progress now).tasks =
            Function.update a.tasks progress.taskId (some (progressed sample progress now)) ∧
          b.buckets = a.buckets ∧ b.origin = a.origin ∧ a.applyProgress progress now =
            b.recordTraffic
              (if sample.transferMeasured then 0
                else max (saturatingSub progress.downloadedBytes sample.downloaded) 0)
              (max (saturatingSub progress.uploadedBytes sample.uploaded) 0) sample.lastAt now := by
  by_cases hdeleted : progress.deleted
  · have hafter : a.applyProgress progress now = a.remove progress.taskId := if_pos hdeleted
    left
    rw [hafter]
    refine ⟨?_, ?_, a.tasks_remove _⟩
    · unfold remove
      split
      · rfl
      · rfl
    · unfold remove
      split
      · rfl
      · rfl
  cases hsample : a.tasks progress.taskId with
  | none =>
    have hafter : a.applyProgress progress now = a := by
      unfold applyProgress
      rw [if_neg hdeleted, hsample]
    left
    rw [hafter, ← hsample, Function.update_eq_self]
    exact ⟨rfl, rfl, rfl⟩
  | some sample =>
    right
    refine ⟨sample, ({ a with
      tasks := Function.update a.tasks progress.taskId (some (progressed sample progress now))
      }.removeStatus sample.status).addStatus progress.status, rfl, ?_, rfl, rfl, ?_⟩
    · unfold applyProgress
      rw [if_neg hdeleted, hsample]
      dsimp only
      rw [(same_recordTraffic _ _ _ _ _).tasks]
      rfl
    · unfold applyProgress
      rw [if_neg hdeleted, hsample]
      rfl

end RuntimeAccounting

/-- A task is watched: its high-water mark is the last one where the task is gone. -/
structure Watch where
  accounting : RuntimeAccounting
  mark : Int

namespace Watch

/-- A progress message, of the watched task or of another one. -/
def step (taskId : String) (watch : Watch) (message : TaskProgress × Nat) : Watch :=
  let after := watch.accounting.applyProgress message.1 message.2
  { accounting := after
    mark := ((after.tasks taskId).map TaskSample.downloaded).getD watch.mark }

/-- The task's transfer is not measured, and the mark is the one of its sample. -/
def Unmeasured (taskId : String) (watch : Watch) : Prop :=
  ∀ sample, watch.accounting.tasks taskId = some sample →
    sample.transferMeasured = false ∧ sample.downloaded = watch.mark

section Step

variable {taskId : String} {watch : Watch} {progress : TaskProgress} {now : Nat}

private theorem unmeasured_step (h : watch.Unmeasured taskId) :
    (watch.step taskId (progress, now)).Unmeasured taskId := by
  intro sample' hsample'
  have hrow : (watch.accounting.applyProgress progress now).tasks taskId = some sample' := hsample'
  have hmark : sample'.downloaded = (watch.step taskId (progress, now)).mark := by
    unfold step
    dsimp only
    rw [hrow]
    rfl
  refine ⟨?_, hmark⟩
  rcases watch.accounting.applyProgress_cases progress now with
    ⟨-, -, htasks⟩ | ⟨sample, _, hsample, htasks, -⟩
  · rw [htasks, Function.update_apply] at hrow
    split at hrow
    · cases hrow
    · exact (h sample' hrow).1
  · rw [htasks, Function.update_apply] at hrow
    split at hrow
    · next heq =>
      rw [heq] at h
      obtain rfl := Option.some.inj hrow
      rw [progressed, (h sample hsample).1, Bool.false_and]
    · exact (h sample' hrow).1

private theorem mark_of_other (h : watch.Unmeasured taskId) (hother : progress.taskId ≠ taskId) :
    (watch.step taskId (progress, now)).mark = watch.mark := by
  have hrow : (watch.accounting.applyProgress progress now).tasks taskId =
      watch.accounting.tasks taskId := by
    rcases watch.accounting.applyProgress_cases progress now with
      ⟨-, -, htasks⟩ | ⟨_, _, -, htasks, -⟩
    · rw [htasks, Function.update_of_ne (Ne.symm hother)]
    · rw [htasks, Function.update_of_ne (Ne.symm hother)]
  unfold step
  dsimp only
  rw [hrow]
  cases hsample : watch.accounting.tasks taskId with
  | none => rfl
  | some sample => exact (h sample hsample).2

private theorem max_saturatingSub {reported mark : Int} (hmark : 0 ≤ mark)
    (hreported : reported ≤ maxI64) :
    max (saturatingSub reported mark) 0 = max mark reported - mark := by
  unfold saturatingSub clampI64
  unfold maxI64 at hreported
  omega

/-- A message of the watched task brings into the ring what the mark gains. -/
theorem records_step (hmarked : watch.accounting.Marked) (h : watch.Unmeasured taskId)
    (hticked : watch.accounting.Ticked (watch.accounting.tick now))
    (hfits : progress.downloadedBytes ≤ maxI64) (htask : progress.taskId = taskId) :
    ∃ uploaded since, Records watch.accounting (watch.accounting.applyProgress progress now)
      ((watch.step taskId (progress, now)).mark - watch.mark) uploaded since now := by
  subst htask
  rcases watch.accounting.applyProgress_cases progress now with
    ⟨hbuckets, horigin, htasks⟩ | ⟨sample, b, hsample, htasks, hbuckets, horigin, hafter⟩
  · have hmark : (watch.step progress.taskId (progress, now)).mark = watch.mark := by
      unfold step
      dsimp only
      rw [htasks, Function.update_self]
      rfl
    have hcall : (watch.accounting.applyProgress progress now).recordTraffic 0 0 none now =
        watch.accounting.applyProgress progress now := if_pos ⟨rfl, rfl⟩
    have hzero : (0 : Int) ≤ 0 ∧ (0 : Int) ≤ maxI64 := by decide
    have hrecords := records_of_ring hbuckets horigin hzero hzero none hticked
    rw [hmark, Int.sub_self]
    rw [hcall] at hrecords
    exact ⟨0, none, hrecords⟩
  · obtain ⟨hmeasured, hlast⟩ := h sample hsample
    have hmark : (watch.step progress.taskId (progress, now)).mark =
        max sample.downloaded progress.downloadedBytes := by
      unfold step
      dsimp only
      rw [htasks, Function.update_self]
      rfl
    have hdelta : max (saturatingSub progress.downloadedBytes sample.downloaded) 0 =
        (watch.step progress.taskId (progress, now)).mark - watch.mark := by
      rw [hmark, ← hlast]
      exact max_saturatingSub (hmarked _ sample hsample) hfits
    have hdown := gain_bounds progress.downloadedBytes sample.downloaded
    rw [hmeasured] at hafter
    simp only [Bool.false_eq_true, if_false] at hafter
    rw [hdelta] at hafter hdown
    rw [hafter]
    exact ⟨_, _, records_of_ring hbuckets horigin hdown (gain_bounds ..) _ hticked⟩

end Step

/-- What the messages bring into the ring is what the mark has gained. -/
theorem received_run {taskId : String} {messages : List (TaskProgress × Nat)}
    (hfits : ∀ message ∈ messages, message.1.downloadedBytes ≤ maxI64) :
    ∀ {watch : Watch} {start : Nat}, watch.accounting.Marked → watch.Unmeasured taskId →
      watch.accounting.Ticked (watch.accounting.tick start) →
        (start :: messages.map Prod.snd).Pairwise (· ≤ ·) →
          Received taskId watch.accounting messages
            ((run (step taskId) watch messages).mark - watch.mark) := by
  induction messages with
  | nil =>
    intro watch start _ _ _ _
    rw [run_nil, Int.sub_self]
    exact .nil _
  | cons message messages ih =>
    intro watch start hmarked h hticked hsorted
    obtain ⟨progress, now⟩ := message
    obtain ⟨hstart, hrest⟩ := List.pairwise_cons.mp hsorted
    have hticked := hticked.mono (tick_mono _ (hstart now List.mem_cons_self))
    have hkeeps := watch.accounting.keeps_applyProgress progress now
    have hnext : (watch.step taskId (progress, now)).accounting.Ticked
        ((watch.step taskId (progress, now)).accounting.tick now) := by
      have hafter := hkeeps.ticked hticked
      unfold RuntimeAccounting.tick micros at hafter ⊢
      change (watch.accounting.applyProgress progress now).Ticked _
      rw [show (watch.step taskId (progress, now)).accounting.origin = _ from hkeeps.origin]
      exact hafter
    have hreceived := ih (fun message hmessage ↦ hfits message (List.mem_cons_of_mem _ hmessage))
      (hkeeps.marked hmarked) (unmeasured_step h) hnext hrest
    rw [run_cons]
    by_cases htask : progress.taskId = taskId
    · obtain ⟨uploaded, since, hrecords⟩ :=
        records_step hmarked h hticked (hfits _ List.mem_cons_self) htask
      have hsum := Received.own htask hrecords hreceived
      rw [Int.add_comm, sub_add_sub_cancel] at hsum
      exact hsum
    · have hsame := Received.other htask hreceived
      rw [mark_of_other h htask] at hsame
      exact hsame

end Watch

/-- In a run at instants that do not decrease every call counts its bytes, up to the saturation of
a bucket; and whatever a hub has gone through, the ring receives of the progress messages of a
task what its high-water mark gains. -/
theorem traffic_conserved :
    (∀ (tasks : List (TaskDto P)) (origin : Nat) (ops : List TrafficOp) (downloaded uploaded : Int)
      (since : Option Nat) (now : Nat),
      (∀ op ∈ ops ++ [.record downloaded uploaded since now], op.Valid) →
        (ops.map TrafficOp.time ++ [now]).Pairwise (· ≤ ·) →
          let a := run trafficStep (new tasks origin) ops
          ∃ shares, Counts saturatingAdd a (a.recordTraffic downloaded uploaded since now)
            downloaded uploaded since now shares) ∧
      ∀ (epoch : String) (snapshot : DaemonSnapshot P) (start : Nat) (ops : List (HubOp P))
        (taskId : String) (mark : Int) (messages : List (TaskProgress × Nat)),
        let a := (run EventState.step (EventState.new epoch snapshot start) ops).accounting
        (∀ op ∈ ops, op.InRange) → (∀ message ∈ messages, message.1.downloadedBytes ≤ maxI64) →
          (start :: (ops.map HubOp.time ++ messages.map Prod.snd)).Pairwise (· ≤ ·) →
            (∀ sample, a.tasks taskId = some sample →
              sample.transferMeasured = false ∧ sample.downloaded = mark) →
              Received taskId a messages
                ((run (Watch.step taskId) ⟨a, mark⟩ messages).mark - mark) := by
  constructor
  · intro tasks origin ops downloaded uploaded since now hvalid hsorted a
    obtain ⟨⟨hdownloaded, hmaxDownloaded⟩, huploaded, hmaxUploaded⟩ :=
      hvalid _ (List.mem_append_right _ List.mem_cons_self)
    have hstep : ∀ a : RuntimeAccounting, ∀ op ∈ ops, Keeps op.time a (a.trafficStep op) :=
      fun a op hop ↦ keeps_trafficStep a (hvalid op (List.mem_append_left _ hop))
    have hticked : a.Ticked (a.tick now) := by
      refine @ticked_run _ _ RuntimeAccounting.trafficStep id TrafficOp.time ops hstep _ 0 now ?_ ?_
      · exact List.pairwise_cons.mpr ⟨fun time _ ↦ Nat.zero_le time, hsorted⟩
      · exact ticked_new tasks origin _
    exact ⟨_, counts_recordTraffic hdownloaded hmaxDownloaded huploaded hmaxUploaded since hticked⟩
  · intro epoch snapshot start ops taskId mark messages a hrange hfits hsorted hsample
    have hmarked : a.Marked := marked_run epoch snapshot start hrange
    cases messages with
    | nil =>
      rw [run_nil, Int.sub_self]
      exact .nil a
    | cons message rest =>
      obtain ⟨progress, now⟩ := message
      have hbefore : (start :: (ops.map HubOp.time ++ [now])).Pairwise (· ≤ ·) := by
        refine hsorted.sublist (List.Sublist.cons_cons _ (List.Sublist.append_left ?_ _))
        exact List.singleton_sublist.mpr List.mem_cons_self
      have hafter : (now :: rest.map Prod.snd).Pairwise (· ≤ ·) :=
        hsorted.sublist (List.sublist_append_right (start :: ops.map HubOp.time) _)
      have hticked : a.Ticked (a.tick now) := ticked_hub epoch snapshot hrange hbefore
      have hunmeasured : (Watch.mk a mark).Unmeasured taskId := hsample
      refine Watch.received_run hfits hmarked hunmeasured hticked ?_
      apply List.pairwise_cons.mpr ⟨fun time htime ↦ ?_, hafter⟩
      rcases List.mem_cons.mp htime with rfl | hlater
      · exact Nat.le_refl _
      · exact (List.pairwise_cons.mp hafter).1 time hlater

/-- A task is added to a hub and gets its first 100 bytes. -/
def watchedHub : EventState noPayloads :=
  run EventState.step (EventState.new "epoch" (busySnapshot 0) 0)
    [.publish (.tasksChanged [sampleTask "1" 1]) 1000000,
      .publish (.engine (.taskProgress
        ⟨"1", 1, 100, 900, 0, 0, "", "", "", "", 0, 0, "", 0⟩)) 250000000]

/-- It gets 150 bytes, is reported with less, then with as much again, and gets 50 more. -/
def watchedMessages : List (TaskProgress × Nat) :=
  [(⟨"1", 1, 250, 900, 0, 0, "", "", "", "", 0, 0, "", 0⟩, 500000000),
    (⟨"1", 1, 120, 900, 0, 0, "", "", "", "", 0, 0, "", 0⟩, 750000000),
    (⟨"2", 1, 700, 900, 0, 0, "", "", "", "", 0, 0, "", 0⟩, 750000000),
    (⟨"1", 1, 250, 900, 0, 0, "", "", "", "", 0, 0, "", 0⟩, 900000000),
    (⟨"1", 1, 300, 900, 0, 0, "", "", "", "", 0, 0, "", 0⟩, 2000000000)]

/-- Four megabytes over a quarter of a second, twice; and 200 bytes of a task. -/
theorem traffic_conserved_sample :
    (∃ shares, Counts saturatingAdd
      (run trafficStep (new (P := noPayloads) [] 0) [.record 4000000 0 (some 0) 250000000])
      ((run trafficStep (new (P := noPayloads) [] 0)
        [.record 4000000 0 (some 0) 250000000]).recordTraffic 4000000 0 (some 250000000) 500000000)
      4000000 0 (some 250000000) 500000000 shares) ∧
      Received "1" watchedHub.accounting watchedMessages 200 := by
  constructor
  · exact traffic_conserved.1 [] 0 [.record 4000000 0 (some 0) 250000000] 4000000 0
      (some 250000000) 500000000 (by decide) (by decide)
  · have hsample : watchedHub.accounting.tasks "1" =
        some ⟨1, 100, 0, false, false, some 250000000⟩ := by decide +kernel
    have hreceived := traffic_conserved.2 "epoch" (busySnapshot 0) 0
      [.publish (.tasksChanged [sampleTask "1" 1]) 1000000,
        .publish (.engine (.taskProgress
          ⟨"1", 1, 100, 900, 0, 0, "", "", "", "", 0, 0, "", 0⟩)) 250000000]
      "1" 100 watchedMessages (by decide) (by decide) (by decide) fun sample hrow ↦ by
        obtain rfl := Option.some.inj (hsample.symm.trans hrow)
        decide
    have hgain : (run (Watch.step "1") ⟨watchedHub.accounting, 100⟩ watchedMessages).mark - 100 =
        200 := by decide +kernel
    rw [← hgain]
    exact hreceived

/-- A second call at one instant adds nothing to a full bucket. -/
theorem traffic_lost :
    ¬ ∃ shares, Counts (· + ·)
      (run trafficStep (new (P := noPayloads) [] 0) [.record maxI64 0 none 0])
      ((run trafficStep (new (P := noPayloads) [] 0) [.record maxI64 0 none 0]).recordTraffic
        maxI64 0 none 0) maxI64 0 none 0 shares := by
  rintro ⟨shares, h⟩
  have htick : (run trafficStep (new (P := noPayloads) [] 0) [.record maxI64 0 none 0]).tick 0 =
      0 := by decide +kernel
  have hall := h.allDownloaded
  rw [htick, List.range_one, List.map_singleton, List.sum_singleton] at hall
  have hadded := congrArg Prod.fst (h.added 0 (by rw [htick]; decide))
  have hbefore : ((run trafficStep (new (P := noPayloads) [] 0)
      [.record maxI64 0 none 0]).bytesAt 0).1 = maxI64 := by decide +kernel
  have hafter : (((run trafficStep (new (P := noPayloads) [] 0)
      [.record maxI64 0 none 0]).recordTraffic maxI64 0 none 0).bytesAt 0).1 = maxI64 := by
    decide +kernel
  dsimp only at hadded
  rw [hbefore, hafter] at hadded
  unfold maxI64 at hall hadded
  omega

end Daemon
