import FluxDown.Engine.ReorderWindowSafety

/-!
# Every playlist's download comes to its end

Library `Engine`. Each step that changes anything lowers a measure, and where no party can change
anything the writer has left and the dispatcher has returned. Without a failure everything is
written then.
-/

namespace Engine.ReorderWindow

open Base SegmentRetry

variable {setup : Setup} {s s' : State}

/-! ## The measure -/

/-- How far a worker is from its end and from being reaped. -/
def Worker.rank (worker : Worker) : Nat := worker.phase.rank + if worker.joined then 0 else 2

/-- How far the dispatcher is from the end of its turn. -/
def DispatcherPhase.rank (version : Nat) : DispatcherPhase → Nat
  | admission parked => if parked = some version then 4 else 5
  | acquire => 3
  | acquired => 2
  | draining => 1
  | returned => 0

/-- How far the writer is from the end of its turn; in its inner loop it goes on with the next
segment or back to the head of the outer one. -/
def WriterPhase.rank (held : Bool) : WriterPhase → Nat
  | top => 6
  | receive => 5
  | flush => if held then 4 else 7
  | writing _ => 3
  | saving => 8
  | left => 2
  | closing => 1
  | out => 0

/-- The token is still to be cancelled. -/
def tokenRank (cancelled : Bool) : Nat := if cancelled then 0 else 1

/-- What all parties have before them. -/
def State.measure (setup : Setup) (s : State) : Nat :=
  tokenRank s.cancelled + (s.workers.map Worker.rank).sum +
    s.dispatcher.rank s.window.version + 13 * (setup.jobs - s.workers.length) + s.queue.length +
    7 * (setup.count - s.nextToWrite) + s.writer.rank (s.pending.get? s.nextToWrite).isSome

private theorem rank_setPhase {k : Nat} {old : WorkerPhase} (phase : WorkerPhase)
    (hworker : phaseAt s.workers k = some old) :
    ((s.setPhase k phase).workers.map Worker.rank).sum + old.rank =
      (s.workers.map Worker.rank).sum + phase.rank := by
  obtain ⟨worker, hget, rfl⟩ := exists_worker hworker
  have hsum := sum_map_modify (f := fun worker ↦ { worker with phase := phase }) Worker.rank hget
  simp only [Worker.rank] at hsum
  simp only [State.setPhase]
  omega

private theorem rank_setJoined {k : Nat} {worker : Worker} (hget : s.workers[k]? = some worker)
    (hjoined : worker.joined = false) :
    ((s.setJoined k).workers.map Worker.rank).sum + 2 = (s.workers.map Worker.rank).sum := by
  have hsum := sum_map_modify (f := fun worker ↦ { worker with joined := true }) Worker.rank hget
  simp only [Worker.rank, hjoined, Bool.false_eq_true, if_false, if_true] at hsum
  simp only [State.setJoined]
  omega

private theorem rank_concat (workers : List Worker) :
    ((workers ++ [({} : Worker)]).map Worker.rank).sum = (workers.map Worker.rank).sum + 8 := by
  simp [Worker.rank, WorkerPhase.rank]

private theorem rank_acquire (version : Nat) : DispatcherPhase.acquire.rank version = 3 := rfl

private theorem rank_acquired (version : Nat) : DispatcherPhase.acquired.rank version = 2 := rfl

private theorem rank_draining (version : Nat) : DispatcherPhase.draining.rank version = 1 := rfl

private theorem rank_saving (held : Bool) : WriterPhase.saving.rank held = 8 := rfl

private theorem rank_left (held : Bool) : WriterPhase.left.rank held = 2 := rfl

private theorem rank_again (phase : DispatcherPhase) (version : Nat) :
    phase.again.rank version ≤ phase.rank version + 1 := by
  cases phase with
  | admission parked =>
    simp only [DispatcherPhase.again, DispatcherPhase.rank, reduceCtorEq, if_false]
    split <;> omega
  | _ => simp [DispatcherPhase.again]

private theorem rank_broken (phase : DispatcherPhase) (version : Nat) :
    phase.broken.rank version ≤ phase.rank version := by
  cases phase with
  | admission parked =>
    simp only [DispatcherPhase.broken, DispatcherPhase.rank]
    split <;> omega
  | _ => simp [DispatcherPhase.broken]

private theorem rank_nextJob (setup : Setup) (dispatched version : Nat) :
    (setup.nextJob dispatched).rank version ≤ 5 := by
  unfold Setup.nextJob
  split <;> simp [DispatcherPhase.rank]

/-- A new version wakes the dispatcher. -/
theorem rank_version (phase : DispatcherPhase) (version version' : Nat) :
    phase.rank version' ≤ phase.rank version + 1 := by
  cases phase with
  | admission parked =>
    simp only [DispatcherPhase.rank]
    split <;> split <;> omega
  | _ => simp [DispatcherPhase.rank]

private theorem rank_admission {phase : DispatcherPhase} {parked : Option Nat}
    (hphase : phase = .admission parked)
    (version : Nat) : 4 ≤ phase.rank version := by
  rw [hphase, DispatcherPhase.rank]
  split <;> omega

private theorem rank_active {writer : WriterPhase} (h : writer.active = true) (held : Bool) :
    3 ≤ writer.rank held := by
  cases writer <;> cases held <;> simp_all [WriterPhase.active, WriterPhase.rank]

private theorem rank_flush (held : Bool) : WriterPhase.flush.rank held ≤ 7 := by
  cases held <;> decide

private theorem tokenRank_le {cancelled cancelled' : Bool}
    (h : cancelled = true → cancelled' = true) :
    tokenRank cancelled' ≤ tokenRank cancelled := by
  cases cancelled <;> cases cancelled' <;> simp_all [tokenRank]

/-- The segment at the file is one of the playlist. -/
theorem Sound.lt_count (h : Sound setup s) {size : Nat} (hphase : s.writer = .writing size) :
    s.nextToWrite < setup.count := by
  have hlt := phaseAt_lt (h.ordered.writing size hphase)
  have hjobs := h.dispatched.le_jobs
  have hfirst := h.ordered.first_le
  unfold Setup.jobs at hjobs
  omega

/-- A step of a worker lowers the measure where the rest stays. -/
theorem measure_setPhase {k : Nat} {old phase : WorkerPhase}
    (hworker : phaseAt s.workers k = some old) (hrank : phase.rank < old.rank) :
    (s.setPhase k phase).measure setup < s.measure setup := by
  have hsum := rank_setPhase phase hworker
  simp only [State.measure, State.setPhase, List.length_modify] at hsum ⊢
  omega

/-- A step that changes anything lowers the measure. -/
theorem Sound.lowers (h : Sound setup s) (hchange : Change setup s s') :
    s' = s ∨ s'.measure setup < s.measure setup := by
  cases hchange with
  | idle => exact .inl rfl
  | cancelled =>
    by_cases hcancelled : s.cancelled = true
    · left
      rw [← hcancelled]
    · right
      simp only [State.measure, tokenRank, hcancelled]
      simp
  | stopped hwait _ =>
    right
    have hrank : 3 ≤ s.dispatcher.rank s.window.version := by
      rcases hwait with ⟨parked, hphase⟩ | hphase
      · exact Nat.le_of_succ_le (rank_admission hphase _)
      · rw [hphase, rank_acquire]
    simp only [State.measure, rank_draining]
    omega
  | admitted hphase _ =>
    right
    have hrank := rank_admission hphase s.window.version
    simp only [State.measure, rank_acquire]
    omega
  | parked hphase hseen _ =>
    right
    simp only [State.measure, hphase, DispatcherPhase.rank, hseen, if_false, if_true]
    omega
  | acquired hphase _ =>
    right
    simp only [State.measure, hphase, DispatcherPhase.rank]
    omega
  | joined k hget _ hjoined _ =>
    right
    have hsum := rank_setJoined hget hjoined
    have hagain := rank_again s.dispatcher s.window.version
    simp only [State.measure, State.setJoined, List.length_modify] at hsum ⊢
    omega
  | crashed k failure hget _ hjoined _ =>
    right
    have hsum := rank_setJoined hget hjoined
    have hbroken := rank_broken s.dispatcher s.window.version
    have htoken := @tokenRank_le s.cancelled true fun _ ↦ rfl
    simp only [State.measure, State.setJoined, List.length_modify] at hsum ⊢
    omega
  | spawned hphase _ =>
    right
    have hjobs := h.dispatched.running (by rw [hphase]; rfl)
    have hnext := rank_nextJob setup (s.workers.length + 1) s.window.version
    simp only [State.measure, hphase, rank_acquired, rank_concat, List.length_append,
      List.length_singleton]
    omega
  | gaveUp hphase _ =>
    right
    simp only [State.measure, hphase, DispatcherPhase.rank]
    omega
  | returned hphase _ =>
    right
    simp only [State.measure, hphase, DispatcherPhase.rank]
    omega
  | advanced k phase hworker _ _ hrank => exact .inr (measure_setPhase hworker hrank)
  | freed k phase hworker _ _ hrank =>
    right
    have hless := @measure_setPhase setup _ _ _ _ hworker hrank
    simp only [State.measure] at hless ⊢
    exact hless
  | @counted k outcome hworker =>
    right
    have hless := @measure_setPhase setup _ _ _ (.sending outcome) hworker
      (by simp [WorkerPhase.rank])
    simp only [State.measure, account_version] at hless ⊢
    exact hless
  | discarded k hworker _ => exact .inr (measure_setPhase hworker (by simp [WorkerPhase.rank]))
  | @sent k outcome hworker _ _ =>
    right
    have hsum := rank_setPhase (.finished outcome) hworker
    simp only [WorkerPhase.rank] at hsum
    simp only [State.measure, State.setPhase, List.length_modify, List.length_append,
      List.length_singleton] at hsum ⊢
    omega
  | entered hphase _ =>
    right
    simp only [State.measure, hphase, WriterPhase.rank]
    omega
  | done hphase _ =>
    right
    simp only [State.measure, hphase, WriterPhase.rank]
    omega
  | held hphase hpending =>
    right
    simp only [State.measure, hphase, WriterPhase.rank, hpending, if_true]
    omega
  | received hphase _ hqueue =>
    right
    simp only [State.measure, hphase, WriterPhase.rank, hqueue, List.length_cons]
    omega
  | flushed hphase hpending =>
    right
    simp only [State.measure, hphase, WriterPhase.rank, hpending, Option.isSome_none,
      Bool.false_eq_true, if_false]
    omega
  | taken hphase hpending =>
    right
    simp only [State.measure, hphase, WriterPhase.rank, hpending, Option.isSome_some, if_true]
    omega
  | @appended size hphase =>
    right
    have hless := h.lt_count hphase
    have hversion := rank_version s.dispatcher s.window.version (s.window.version + 1)
    simp only [State.measure, hphase, WriterPhase.rank, WindowState.advance]
    omega
  | saved hphase =>
    right
    have hflush := rank_flush (s.pending.get? s.nextToWrite).isSome
    simp only [State.measure, hphase, rank_saving]
    omega
  | failed cancelled queue pending fatal hactive hcancelled hqueue =>
    right
    have hrank := rank_active hactive (s.pending.get? s.nextToWrite).isSome
    have htoken := tokenRank_le hcancelled
    have hlength : queue.length ≤ s.queue.length := by
      rcases hqueue with rfl | ⟨head, hqueue⟩
      · exact Nat.le_refl _
      · rw [hqueue]
        exact Nat.le_succ _
    simp only [State.measure, rank_left]
    omega
  | closing hphase =>
    right
    have htoken := @tokenRank_le s.cancelled (s.cancelled || s.fatalError.isSome)
      fun hcancelled ↦ by rw [hcancelled]; rfl
    simp only [State.measure, hphase, WriterPhase.rank]
    omega
  | closed hphase =>
    right
    simp only [State.measure, hphase, WriterPhase.rank, List.length_nil]
    omega

/-- A run has no more steps that change anything than its measure. -/
theorem Sound.length_le (h : Sound setup s) {ops : List Op}
    (hops : EveryStep setup.step (fun s op ↦ setup.step s op ≠ s) s ops) :
    ops.length ≤ s.measure setup := by
  induction ops generalizing s with
  | nil => exact Nat.zero_le _
  | cons op ops ih =>
    have hless := (h.lowers (step_change s op)).resolve_left hops.1
    have hrest := ih (h.step op) hops.2
    rw [List.length_cons]
    omega

/-! ## Where nobody can go on -/

/-- The step is none of a failure or a cancellation. -/
def Op.quiet : Op → Bool
  | .cancel => false
  | .work _ (.ok (.ok _)) => true
  | .work _ _ => false
  | .write fault => fault.isNone
  | _ => true

/-- No quiet step changes anything. -/
def Stuck (setup : Setup) (s : State) : Prop := ∀ op, op.quiet = true → setup.step s op = s

/-- The step of a party that has one. -/
theorem Stuck.phaseAt_step (h : Stuck setup s) (op : Op) (hop : op.quiet = true) (k : Nat) :
    phaseAt (setup.step s op).workers k = phaseAt s.workers k := by
  rw [h op hop]

/-- Every worker is over. -/
theorem Stuck.gone (h : Stuck setup s) (hsound : Sound setup s) {k : Nat} {phase : WorkerPhase}
    (hworker : phaseAt s.workers k = some phase) : phase.gone = true := by
  obtain ⟨worker, hget, rfl⟩ := exists_worker hworker
  have hstep := h.phaseAt_step (.work k (.ok (.ok 0))) rfl k
  simp only [Setup.step, State.work, hget] at hstep
  cases hphase : worker.phase with
  | spawned =>
    rw [hphase] at hworker hstep
    cases hcancelled : s.cancelled <;>
      simp [hcancelled, phaseAt_setPhase hworker, hworker] at hstep
  | downloading =>
    rw [hphase] at hworker hstep
    simp [phaseAt_setPhase hworker, hworker] at hstep
  | ended outcome =>
    rw [hphase] at hworker hstep
    simp [phaseAt_setPhase hworker, hworker] at hstep
  | released outcome =>
    rw [hphase] at hworker hstep
    simp [phaseAt_setPhase hworker, hworker] at hstep
  | sending outcome =>
    rw [hphase] at hworker hstep
    have hroom := hsound.room hworker
    cases hclosed : s.closed <;>
      simp [hclosed, hroom, phaseAt_setPhase hworker, hworker] at hstep
  | finished outcome => rfl
  | panicked text => rfl

/-- A worker that sends goes on, as the channel has room or is closed. -/
theorem Sound.sends (h : Sound setup s) {k : Nat} {outcome : Outcome}
    (hworker : phaseAt s.workers k = some (.sending outcome)) (reply : Except String Outcome) :
    phaseAt (setup.step s (.work k reply)).workers k = some (.finished outcome) := by
  have hroom := h.room hworker
  obtain ⟨worker, hget, hphase⟩ := exists_worker hworker
  simp only [Setup.step, State.work, hget, hphase, hroom, if_true]
  split
  · rw [phaseAt_setPhase hworker, if_pos rfl]
  · rw [phaseAt_setPhase hworker, if_pos rfl]

/-- The writer waits for a result or is out. -/
theorem Stuck.writer (h : Stuck setup s) :
    s.writer = .out ∨ s.writer = .receive ∧ s.pending.get? s.nextToWrite = none ∧ s.queue = [] ∧
      s.disconnected = false := by
  have hstep := h (.write none) rfl
  simp only [Setup.step, State.write] at hstep
  have hsame := congrArg State.writer hstep
  cases hphase : s.writer with
  | top =>
    simp only [hphase] at hsame
    split at hsame
    · split at hsame <;> simp [State.leave] at hsame
    · simp at hsame
  | receive =>
    right
    simp only [hphase, State.receive] at hstep hsame
    cases hpending : s.pending.get? s.nextToWrite with
    | some size => simp [hpending] at hsame
    | none =>
      rw [hpending] at hstep hsame
      cases hqueue : s.queue with
      | cons entry queue =>
        obtain ⟨idx, outcome⟩ := entry
        cases outcome with
        | ok size =>
          have hlength := congrArg (fun s ↦ s.queue.length) hstep
          simp [hqueue] at hlength
        | error e => simp [hqueue, State.abort, State.leave] at hsame
      | nil =>
        refine ⟨rfl, rfl, rfl, ?_⟩
        cases hdisconnected : s.disconnected with
        | false => rfl
        | true => simp [hqueue, hdisconnected, State.leave] at hsame
  | flush =>
    simp only [hphase, State.flush] at hsame
    split at hsame
    · simp at hsame
    · split at hsame <;> simp [State.leave] at hsame
  | writing size => simp [hphase, State.append] at hsame
  | saving => simp [hphase, State.save] at hsame
  | left => simp [hphase] at hsame
  | closing => simp [hphase] at hsame
  | out => exact .inl rfl

/-- Every worker is reaped where the dispatcher reaps. -/
theorem Stuck.joined (h : Stuck setup s) (hsound : Sound setup s)
    (hreaping : s.dispatcher.reaping = true) {worker : Worker} (hworker : worker ∈ s.workers) :
    worker.joined = true := by
  obtain ⟨k, hget⟩ := List.mem_iff_getElem?.mp hworker
  by_contra hjoined
  have hunjoined : worker.joined = false := by simpa using hjoined
  have hgone := h.gone hsound (phaseAt_eq hget)
  have hstep := congrArg (fun s ↦ s.workers[k]?.map Worker.joined) (h (.reap k) rfl)
  simp only [Setup.step, State.reap, hget, hreaping, hunjoined, Bool.not_false, Bool.and_true,
    if_true, Option.map_some] at hstep
  cases hphase : worker.phase with
  | finished outcome => simp [hphase, State.setJoined, hget] at hstep
  | panicked text => simp [hphase, State.setJoined, hget] at hstep
  | _ =>
    rw [hphase] at hgone
    cases hgone

/-- No worker holds a permit. -/
theorem Stuck.holders_eq (h : Stuck setup s) (hsound : Sound setup s) : holders s.workers = 0 := by
  rw [holders, List.countP_eq_zero]
  intro phase hphase
  obtain ⟨worker, hworker, rfl⟩ := List.mem_map.mp hphase
  obtain ⟨k, hget⟩ := List.mem_iff_getElem?.mp hworker
  have hgone := h.gone hsound (phaseAt_eq hget)
  intro hholding
  rw [not_gone_of_holding hholding] at hgone
  cases hgone

/-- The dispatcher sleeps at a window that admits nothing, or has returned. -/
theorem Stuck.dispatcher (h : Stuck setup s) (hsound : Sound setup s) :
    s.dispatcher = .returned ∨ s.dispatcher = .admission (some s.window.version) ∧
      s.cancelled = false := by
  cases hphase : s.dispatcher with
  | admission parked =>
    right
    have hlook := congrArg State.dispatcher (h .admission rfl)
    have hstop := congrArg State.dispatcher (h .stop rfl)
    simp only [Setup.step, State.admission, State.stop, hphase] at hlook hstop
    refine ⟨?_, ?_⟩
    · split at hlook
      · next hsame => rw [hsame]
      · split at hlook
        · simp at hlook
        · exact hlook.symm
    · cases hcancelled : s.cancelled with
      | false => rfl
      | true => simp [hcancelled] at hstop
  | acquire =>
    have hpermits := hsound.permits
    have hpos := setup.concurrency_pos
    rw [Permits, h.holders_eq hsound, hphase] at hpermits
    simp only [DispatcherPhase.holding, Bool.toNat_false] at hpermits
    have hstep := congrArg State.dispatcher (h .acquire rfl)
    have hfree : 0 < s.permits := by omega
    simp [Setup.step, State.acquire, hphase, hfree] at hstep
  | acquired =>
    have hstep := congrArg State.dispatcher (h .spawn rfl)
    simp only [Setup.step, State.spawn, hphase] at hstep
    split at hstep
    · simp at hstep
    · simp only [Setup.nextJob] at hstep
      split at hstep <;> cases hstep
  | draining =>
    have hjoined : s.workers.all Worker.joined = true :=
      List.all_eq_true.mpr fun worker hworker ↦ h.joined hsound (by rw [hphase]; rfl) hworker
    have hstep := congrArg State.dispatcher (h .finish rfl)
    simp [Setup.step, State.finish, hphase, hjoined] at hstep
  | returned => exact .inl rfl

/-- The worker of the segment that the writer waits for has crashed if it is over, as its result is
neither in the channel nor with the writer. -/
theorem Sound.head_crashed (h : Sound setup s) (hwriter : s.writer = .receive)
    (hpending : s.pending.get? s.nextToWrite = none) (hqueue : s.queue = [])
    (hlt : s.nextToWrite - setup.first < s.workers.length)
    (hgone : ∀ k phase, phaseAt s.workers k = some phase → phase.gone = true) :
    ∃ text, phaseAt s.workers (s.nextToWrite - setup.first) = some (.panicked text) := by
  have hfirst := h.ordered.first_le
  have hworker := phaseAt_eq (List.getElem?_eq_getElem hlt)
  have hover := hgone _ _ hworker
  cases hphase : (s.workers[s.nextToWrite - setup.first]).phase with
  | panicked text => exact ⟨text, hphase ▸ hworker⟩
  | finished outcome =>
    rw [hphase] at hworker
    have hactive : s.writer.active = true := by rw [hwriter]; rfl
    rcases h.ordered.delivered hactive _ _ hworker with hlow | hmem | hsome
    · simp only [hwriter, WriterPhase.low] at hlow
      omega
    · rw [hqueue] at hmem
      cases hmem
    · rw [Nat.add_sub_cancel' hfirst, hpending] at hsome
      cases hsome
  | _ =>
    rw [hphase] at hover
    cases hover

/-- Where nobody can go on the writer has left and the dispatcher has returned. -/
theorem Stuck.over (h : Stuck setup s) (hsound : Sound setup s) :
    s.writer = .out ∧ s.dispatcher = .returned := by
  rcases h.dispatcher hsound with hreturned | ⟨hparked, hlive⟩
  · rcases h.writer with hout | ⟨_, _, _, hconnected⟩
    · exact ⟨hout, hreturned⟩
    · have hgone : s.workers.all (fun worker ↦ worker.phase.gone) = true := by
        rw [List.all_eq_true]
        intro worker hworker
        obtain ⟨k, hget⟩ := List.mem_iff_getElem?.mp hworker
        exact h.gone hsound (phaseAt_eq hget)
      simp [State.disconnected, hreturned, hgone, DispatcherPhase.gone] at hconnected
  · exfalso
    have hrunning := hsound.dispatched.running (by rw [hparked]; rfl)
    have hahead := lt_of_not_admits ((hsound.dispatched.parked _ hparked).2 rfl)
    rw [hsound.ordered.window_eq] at hahead
    rcases h.writer with hout | ⟨hreceive, hpending, hqueue, -⟩
    · rcases hsound.written.final (by rw [hout]; rfl) with hfatal | hcount
      · have hcancelled := hsound.written.stopped (.inr hout) hfatal
        rw [hlive] at hcancelled
        cases hcancelled
      · unfold Setup.jobs at hrunning
        omega
    · have hfirst := hsound.ordered.first_le
      obtain ⟨text, hcrashed⟩ := hsound.head_crashed hreceive hpending hqueue (by omega)
        fun k phase hworker ↦ h.gone hsound hworker
      obtain ⟨worker, hget, hphase⟩ := exists_worker hcrashed
      have hmem := List.mem_of_getElem? hget
      have hjoined := h.joined hsound (by rw [hparked]; rfl) hmem
      apply hsound.joined.not_failed _ (hsound.joined.crashed worker hmem hjoined text hphase)
      simp [hparked]

/-! ## Runs without a failure -/

/-- The worker has a segment if it has ended. -/
def WorkerPhase.fine : WorkerPhase → Bool
  | ended outcome | released outcome | sending outcome | finished outcome => outcome.toBool
  | panicked _ => false
  | _ => true

/-- Nothing has failed. -/
structure Quiet (setup : Setup) (s : State) : Prop where
  live : s.cancelled = false
  intact : s.failure = none
  clean : s.fatalError = none
  fine : ∀ k phase, phaseAt s.workers k = some phase → phase.fine = true
  results : ∀ entry ∈ s.queue, entry.2.toBool = true
  ended : s.dispatcher.gone = true → s.workers.length = setup.jobs
  receiving : s.writer = .receive → s.nextToWrite < setup.count

private theorem quiet_start (setup : Setup) : Quiet setup setup.start := by
  refine ⟨rfl, rfl, rfl, fun k phase hworker ↦ (by cases hworker), fun entry hentry ↦ (by cases hentry),
    fun hgone ↦ ?_, fun hreceive ↦ (by cases hreceive)⟩
  simp only [Setup.start, Setup.nextJob] at hgone
  split at hgone
  · cases hgone
  · next hjobs =>
    simp only [Setup.start, List.length_nil]
    omega

/-- A worker goes on. -/
theorem Quiet.onPhase (h : Quiet setup s) {k : Nat} {old : WorkerPhase} (phase : WorkerPhase)
    (hworker : phaseAt s.workers k = some old) (hphase : phase.fine = true) :
    Quiet setup (s.setPhase k phase) where
  live := h.live
  intact := h.intact
  clean := h.clean
  fine j phase' hj := by
    rw [phaseAt_setPhase hworker] at hj
    split at hj
    · cases hj
      exact hphase
    · exact h.fine j phase' hj
  results := h.results
  ended hgone := (length_setPhase k phase).trans (h.ended hgone)
  receiving := h.receiving

/-- The dispatcher goes on in its loop. -/
theorem Quiet.onDispatcher (h : Quiet setup s) {dispatcher : DispatcherPhase} (permits : Nat)
    (hgone : dispatcher.gone = true → s.workers.length = setup.jobs) :
    Quiet setup { s with dispatcher := dispatcher, permits := permits } :=
  ⟨h.live, h.intact, h.clean, h.fine, h.results, hgone, h.receiving⟩

/-- The writer goes on in its loop. -/
theorem Quiet.onWriter (h : Quiet setup s) {writer : WriterPhase} (pending : SortedMap Nat Nat)
    (hreceive : writer = .receive → s.nextToWrite < setup.count) :
    Quiet setup { s with writer := writer, pending := pending } :=
  ⟨h.live, h.intact, h.clean, h.fine, h.results, h.ended, hreceive⟩

private theorem Quiet.reap (h : Quiet setup s) (k : Nat) : Quiet setup (s.reap k) := by
  unfold State.reap
  split
  · exact h
  · next worker hget =>
    split
    · split
      · refine ⟨h.live, h.intact, h.clean, fun j phase hj ↦ ?_, h.results, fun hgone ↦ ?_, h.receiving⟩
        · rw [phaseAt_setJoined] at hj
          exact h.fine j phase hj
        · simp only [length_setJoined]
          apply h.ended
          cases hdispatcher : s.dispatcher <;> simp_all [DispatcherPhase.again, DispatcherPhase.gone]
      · next text hphase =>
        have hfine := h.fine k _ (phaseAt_eq hget)
        rw [hphase] at hfine
        cases hfine
      · exact h
    · exact h

private theorem Quiet.spawn (h : Quiet setup s) (hsound : Sound setup s) :
    Quiet setup (s.spawn setup) := by
  unfold State.spawn
  split
  · next hphase =>
    split
    · next hfailure =>
      rw [h.intact] at hfailure
      cases hfailure
    · refine ⟨h.live, h.intact, h.clean, fun j phase hj ↦ ?_, h.results, fun hgone ↦ ?_, h.receiving⟩
      · rw [phaseAt_concat] at hj
        split at hj
        · cases hj
          rfl
        · exact h.fine j phase hj
      · have hrunning := hsound.dispatched.running (by rw [hphase]; rfl)
        simp only [Setup.nextJob] at hgone
        split at hgone
        · cases hgone
        · simp only [List.length_append, List.length_singleton]
          omega
  · exact h

private theorem Quiet.work (h : Quiet setup s) (k size : Nat) :
    Quiet setup (s.work setup k (.ok (.ok size))) := by
  unfold State.work
  split
  · exact h
  · next worker hget =>
    have hworker := phaseAt_eq hget
    have hfine := h.fine k _ hworker
    split
    · split
      · next hcancelled =>
        rw [h.live] at hcancelled
        cases hcancelled
      · exact h.onPhase _ hworker rfl
    · exact h.onPhase _ hworker rfl
    · next outcome hphase =>
      rw [hphase] at hfine
      have hnext := h.onPhase (.released outcome) hworker hfine
      exact ⟨hnext.live, hnext.intact, hnext.clean, hnext.fine, hnext.results, hnext.ended,
        hnext.receiving⟩
    · next outcome hphase =>
      rw [hphase] at hfine
      have hnext := h.onPhase (.sending outcome) hworker hfine
      exact ⟨hnext.live, hnext.intact, hnext.clean, hnext.fine, hnext.results, hnext.ended,
        hnext.receiving⟩
    · next outcome hphase =>
      rw [hphase] at hfine
      have hnext := h.onPhase (.finished outcome) hworker hfine
      split
      · exact hnext
      · split
        · refine ⟨hnext.live, hnext.intact, hnext.clean, hnext.fine, ?_, hnext.ended, hnext.receiving⟩
          intro entry hentry
          rcases List.mem_append.mp hentry with hentry | hentry
          · exact h.results entry hentry
          · obtain rfl := List.mem_singleton.mp hentry
            exact hfine
        · exact h
    · exact h
    · exact h

/-- The channel is not closed before the next segment is there. -/
theorem Quiet.connected (h : Quiet setup s) (hsound : Sound setup s) (hwriter : s.writer = .receive)
    (hpending : s.pending.get? s.nextToWrite = none) (hqueue : s.queue = []) :
    s.disconnected = false := by
  by_contra hdisconnected
  simp only [State.disconnected, Bool.not_eq_false, Bool.and_eq_true, List.all_eq_true]
    at hdisconnected
  obtain ⟨hgone, hall⟩ := hdisconnected
  have hcount := h.receiving hwriter
  have hlength := h.ended hgone
  have hfirst := hsound.ordered.first_le
  have hlt : s.nextToWrite - setup.first < s.workers.length := by
    rw [hlength, Setup.jobs]
    omega
  obtain ⟨text, hcrashed⟩ := hsound.head_crashed hwriter hpending hqueue hlt fun k phase hworker ↦ by
    obtain ⟨worker, hget, rfl⟩ := exists_worker hworker
    exact hall worker (List.mem_of_getElem? hget)
  have hfine := h.fine _ _ hcrashed
  cases hfine

private theorem Quiet.write (h : Quiet setup s) (hsound : Sound setup s) :
    Quiet setup (s.write setup none) := by
  unfold State.write
  split
  · split
    · next hless =>
      rw [if_neg (by rw [h.live]; decide)]
      exact h.onWriter s.pending fun _ ↦ hless
    · exact h.onWriter s.pending fun hreceive ↦ (by cases hreceive)
  · next hphase =>
    have hless := h.receiving hphase
    unfold State.receive
    split
    · exact h.onWriter s.pending fun hreceive ↦ (by cases hreceive)
    · next hpending =>
      split
      · next idx size queue hqueue =>
        refine ⟨h.live, h.intact, h.clean, h.fine, fun entry hentry ↦ ?_, h.ended, h.receiving⟩
        exact h.results entry (hqueue ▸ List.mem_cons_of_mem _ hentry)
      · next idx error queue hqueue =>
        have hok := h.results (idx, .error error) (by rw [hqueue]; exact List.mem_cons_self)
        cases hok
      · next hqueue =>
        rw [h.connected hsound hphase (by simpa using hpending) hqueue]
        exact h
  · unfold State.flush
    split
    · exact h.onWriter s.pending fun hreceive ↦ (by cases hreceive)
    · rw [if_neg (by rw [h.live]; decide)]
      exact h.onWriter _ fun hreceive ↦ (by cases hreceive)
  · exact ⟨h.live, h.intact, h.clean, h.fine, h.results, h.ended, fun hreceive ↦ (by cases hreceive)⟩
  · exact h.onWriter s.pending fun hreceive ↦ (by cases hreceive)
  · refine ⟨?_, h.intact, h.clean, h.fine, h.results, h.ended, fun hreceive ↦ (by cases hreceive)⟩
    rw [h.live, h.clean]
    rfl
  · exact ⟨h.live, h.intact, h.clean, h.fine, fun entry hentry ↦ (by cases hentry), h.ended,
      fun hreceive ↦ (by cases hreceive)⟩
  · exact h

private theorem Quiet.step (h : Quiet setup s) (hsound : Sound setup s) {op : Op}
    (hop : op.quiet = true) :
    Quiet setup (setup.step s op) := by
  cases op with
  | cancel => cases hop
  | stop =>
    have hsame : s.stop = s := by
      unfold State.stop
      split <;> simp [h.live]
    rw [Setup.step, hsame]
    exact h
  | admission =>
    simp only [Setup.step, State.admission]
    split
    · split
      · exact h
      · split
        · exact h.onDispatcher s.permits fun hgone ↦ (by cases hgone)
        · exact h.onDispatcher s.permits fun hgone ↦ (by cases hgone)
    · exact h
  | acquire =>
    simp only [Setup.step, State.acquire]
    split
    · split
      · exact h.onDispatcher _ fun hgone ↦ (by cases hgone)
      · exact h
    · exact h
  | reap k => exact h.reap k
  | spawn => exact h.spawn hsound
  | finish =>
    simp only [Setup.step, State.finish]
    split
    · next hphase =>
      split
      · exact h.onDispatcher s.permits fun _ ↦ h.ended (by rw [hphase]; rfl)
      · exact h
    · exact h
  | work k reply =>
    cases reply with
    | error text => cases hop
    | ok outcome =>
      cases outcome with
      | error error => cases hop
      | ok size => exact h.work k size
  | write fault =>
    cases fault with
    | some fault => cases hop
    | none => exact h.write hsound

private theorem quiet_run (setup : Setup) {ops : List Op} (hops : ∀ op ∈ ops, op.quiet = true) :
    Quiet setup (run setup.step setup.start ops) := by
  have hstep : ∀ s op, Sound setup s ∧ Quiet setup s → op.quiet = true →
      Sound setup (setup.step s op) ∧ Quiet setup (setup.step s op) :=
    fun s op h hop ↦ ⟨h.1.step op, h.2.step h.1 hop⟩
  have hquiet : EveryStep setup.step (fun _ op ↦ op.quiet = true) setup.start ops :=
    EveryStep.of_forall_mem (fun op hop _ ↦ hops op hop) _
  exact (run_invariant hstep ⟨sound_start setup, quiet_start setup⟩ hquiet).2

/-- Everything is written when nothing has failed and nobody can go on. -/
theorem Quiet.written (h : Quiet setup s) (hsound : Sound setup s) (hstuck : Stuck setup s) :
    s.written = List.range' setup.first (setup.count - setup.first) := by
  have hout := (hstuck.over hsound).1
  have hcount : setup.count ≤ s.nextToWrite := by
    rcases hsound.written.final (by rw [hout]; rfl) with hfatal | hcount
    · rw [h.clean] at hfatal
      cases hfatal
    · exact hcount
  have hnext := hsound.ordered.next_le
  have hjobs := hsound.dispatched.le_jobs
  have hlength : s.nextToWrite - setup.first = setup.count - setup.first := by
    unfold Setup.jobs at hjobs
    omega
  rw [hsound.written.written_eq, hlength]

/-- In every run what is dispatched and not written lies within the window, as many workers as there
are permits hold one, a worker that sends is not held up, and the bytes that the window counts are
those that are downloaded and not written. The file has the segments in order. The run comes to an
end: a step that changes anything lowers a measure, and where no party can go on the writer has left
and the dispatcher has returned, with every segment written unless something failed. -/
theorem window_run (setup : Setup) (ops : List Op) :
    let s := run setup.step setup.start ops
    (∀ k < s.workers.length, s.nextToWrite ≤ setup.first + k →
      setup.first + k < s.nextToWrite + setup.maxAhead) ∧
    holders s.workers ≤ setup.concurrency ∧
    (∀ k outcome, phaseAt s.workers k = some (.sending outcome) → ∀ reply,
      phaseAt (setup.step s (.work k reply)).workers k = some (.finished outcome)) ∧
    s.window.nextToWrite = s.nextToWrite ∧
    s.window.buffered = unwritten s.workers (s.nextToWrite - setup.first) ∧
    (∀ size, s.writer = .writing size → size ≤ s.window.buffered) ∧
    s.written = List.range' setup.first (s.nextToWrite - setup.first) ∧
    (∀ more, EveryStep setup.step (fun s op ↦ setup.step s op ≠ s) s more →
      more.length ≤ s.measure setup) ∧
    (Stuck setup s → s.writer = .out ∧ s.dispatcher = .returned) ∧
    ((∀ op ∈ ops, op.quiet = true) → Stuck setup s →
      s.written = List.range' setup.first (setup.count - setup.first)) := by
  have h := sound_run setup ops
  refine ⟨fun k hk _ ↦ ?_, h.holders_le, fun k outcome hworker reply ↦ ?_, h.ordered.window_eq,
    h.ordered.buffered, fun size hwriting ↦ ?_, h.written.written_eq, fun more hmore ↦ h.length_le hmore,
    fun hstuck ↦ hstuck.over h, fun hops hstuck ↦ (quiet_run setup hops).written h hstuck⟩
  · rw [← h.ordered.window_eq]
    exact h.dispatched_lt hk
  · exact h.sends hworker reply
  · have hordered := h.ordered
    rw [State.Ordered, hwriting] at hordered
    exact hordered.size_le

end Engine.ReorderWindow
