import FluxDown.Base.Indexed
import FluxDown.Engine.ReorderWindow

/-!
# Changes of a playlist's download

Library `Engine`. Each step of a party is one of a few changes, which say what the step found and what
it leaves. Invariants are shown of the changes.
-/

namespace Engine.ReorderWindow

open Base SegmentRetry

/-! ## Steps -/

/-- How far a worker is from its end. -/
def WorkerPhase.rank : WorkerPhase → Nat
  | spawned => 6
  | downloading => 5
  | ended _ => 4
  | released _ => 3
  | sending _ => 2
  | finished _ | panicked _ => 0

/-- The phase of a worker. -/
def phaseAt (workers : List Worker) (k : Nat) : Option WorkerPhase := workers[k]?.map Worker.phase

/-- What one step may change. -/
inductive Change (setup : Setup) (s : State) : State → Prop
  | idle : Change setup s s
  | cancelled : Change setup s { s with cancelled := true }
  | stopped (hwait : (∃ parked, s.dispatcher = .admission parked) ∨ s.dispatcher = .acquire)
      (hcancelled : s.cancelled = true) : Change setup s { s with dispatcher := .draining }
  | admitted {parked : Option Nat} (hphase : s.dispatcher = .admission parked)
      (hadmits : setup.admits s.window (s.jobIdx setup) = true) :
      Change setup s { s with dispatcher := .acquire }
  | parked {parked : Option Nat} (hphase : s.dispatcher = .admission parked)
      (hseen : parked ≠ some s.window.version)
      (hadmits : setup.admits s.window (s.jobIdx setup) = false) :
      Change setup s { s with dispatcher := .admission (some s.window.version) }
  | acquired (hphase : s.dispatcher = .acquire) (hpermits : 0 < s.permits) :
      Change setup s { s with dispatcher := .acquired, permits := s.permits - 1 }
  | joined (k : Nat) {worker : Worker} {outcome : Outcome} (hworker : s.workers[k]? = some worker)
      (hphase : worker.phase = .finished outcome) (hjoined : worker.joined = false)
      (hreaping : s.dispatcher.reaping = true) :
      Change setup s { s.setJoined k with dispatcher := s.dispatcher.again }
  | crashed (k : Nat) {worker : Worker} {text : String} (failure : DownloadError)
      (hworker : s.workers[k]? = some worker) (hphase : worker.phase = .panicked text)
      (hjoined : worker.joined = false) (hreaping : s.dispatcher.reaping = true) :
      Change setup s { s.setJoined k with
        cancelled := true
        failure := s.failure.or (some failure)
        dispatcher := s.dispatcher.broken }
  | spawned (hphase : s.dispatcher = .acquired) (hfailure : s.failure.isSome = false) :
      Change setup s { s with
        workers := s.workers ++ [{}]
        dispatcher := setup.nextJob (s.workers.length + 1) }
  | gaveUp (hphase : s.dispatcher = .acquired) (hfailure : s.failure.isSome = true) :
      Change setup s { s with dispatcher := .draining, permits := s.permits + 1 }
  | returned (hphase : s.dispatcher = .draining) (hjoined : ∀ worker ∈ s.workers, worker.joined = true) :
      Change setup s { s with dispatcher := .returned }
  | advanced (k : Nat) {old : WorkerPhase} (phase : WorkerPhase)
      (hworker : phaseAt s.workers k = some old) (hold : old.holding = true)
      (hphase : phase.holding = true) (hrank : phase.rank < old.rank) :
      Change setup s (s.setPhase k phase)
  | freed (k : Nat) {old : WorkerPhase} (phase : WorkerPhase)
      (hworker : phaseAt s.workers k = some old) (hold : old.holding = true)
      (hphase : (∃ outcome, phase = .released outcome) ∨ ∃ text, phase = .panicked text)
      (hrank : phase.rank < old.rank) :
      Change setup s { s.setPhase k phase with permits := s.permits + 1 }
  | counted (k : Nat) {outcome : Outcome}
      (hworker : phaseAt s.workers k = some (.released outcome)) :
      Change setup s { s.setPhase k (.sending outcome) with window := s.window.account outcome }
  | discarded (k : Nat) {outcome : Outcome}
      (hworker : phaseAt s.workers k = some (.sending outcome)) (hclosed : s.closed = true) :
      Change setup s (s.setPhase k (.finished outcome))
  | sent (k : Nat) {outcome : Outcome} (hworker : phaseAt s.workers k = some (.sending outcome))
      (hclosed : s.closed = false) (hroom : s.queue.length < setup.maxAhead) :
      Change setup s { s.setPhase k (.finished outcome) with
        queue := s.queue ++ [(setup.first + k, outcome)] }
  | entered (hphase : s.writer = .top) (hless : s.nextToWrite < setup.count) :
      Change setup s { s with writer := .receive }
  | done (hphase : s.writer = .top) (hcount : setup.count ≤ s.nextToWrite) :
      Change setup s { s with writer := .left }
  | held (hphase : s.writer = .receive) (hpending : (s.pending.get? s.nextToWrite).isSome = true) :
      Change setup s { s with writer := .flush }
  | received {idx size : Nat} {queue : List (Nat × Outcome)} (hphase : s.writer = .receive)
      (hpending : s.pending.get? s.nextToWrite = none) (hqueue : s.queue = (idx, .ok size) :: queue) :
      Change setup s { s with queue := queue, pending := s.pending.insert idx size }
  | flushed (hphase : s.writer = .flush) (hpending : s.pending.get? s.nextToWrite = none) :
      Change setup s { s with writer := .top }
  | taken {size : Nat} (hphase : s.writer = .flush)
      (hpending : s.pending.get? s.nextToWrite = some size) :
      Change setup s { s with pending := s.pending.erase s.nextToWrite, writer := .writing size }
  | appended {size : Nat} (hphase : s.writer = .writing size) :
      Change setup s { s with
        writer := .saving
        written := s.written ++ [s.nextToWrite]
        nextToWrite := s.nextToWrite + 1
        window := s.window.advance (s.nextToWrite + 1) size }
  | saved (hphase : s.writer = .saving) : Change setup s { s with writer := .flush }
  | failed (cancelled : Bool) (queue : List (Nat × Outcome)) (pending : SortedMap Nat Nat)
      (fatal : DownloadError) (hactive : s.writer.active = true)
      (hcancelled : s.cancelled = true → cancelled = true)
      (hqueue : queue = s.queue ∨ ∃ head, s.queue = head :: queue) :
      Change setup s { s with
        cancelled := cancelled, queue := queue, pending := pending, writer := .left
        fatalError := some fatal }
  | closing (hphase : s.writer = .left) :
      Change setup s { s with
        writer := .closing, cancelled := s.cancelled || s.fatalError.isSome }
  | closed (hphase : s.writer = .closing) :
      Change setup s { s with writer := .out, closed := true, queue := [] }

variable {setup : Setup} {s s' : State}

/-- The phase of a worker. -/
theorem phaseAt_eq {workers : List Worker} {k : Nat} {worker : Worker}
    (hworker : workers[k]? = some worker) : phaseAt workers k = some worker.phase := by
  rw [phaseAt, hworker, Option.map_some]

section StepChange

private theorem stop_change : Change setup s s.stop := by
  unfold State.stop
  split
  · next parked hphase =>
    split
    · next hcancelled => exact .stopped (.inl ⟨parked, hphase⟩) hcancelled
    · exact .idle
  · next hphase =>
    split
    · next hcancelled => exact .stopped (.inr hphase) hcancelled
    · exact .idle
  · exact .idle

private theorem admission_change : Change setup s (s.admission setup) := by
  unfold State.admission
  split
  · next parked hphase =>
    split
    · exact .idle
    · next hseen =>
      split
      · next hadmits => exact .admitted hphase hadmits
      · next hadmits => exact .parked hphase hseen (Bool.eq_false_iff.mpr hadmits)
  · exact .idle

private theorem acquire_change : Change setup s s.acquire := by
  unfold State.acquire
  split
  · next hphase =>
    split
    · next hpermits => exact .acquired hphase hpermits
    · exact .idle
  · exact .idle

private theorem reap_change (k : Nat) : Change setup s (s.reap k) := by
  unfold State.reap
  split
  · exact .idle
  · next worker hworker =>
    split
    · next hreap =>
      simp only [Bool.and_eq_true, Bool.not_eq_true'] at hreap
      split
      · next outcome hphase => exact .joined k hworker hphase hreap.2 hreap.1
      · next text hphase => exact .crashed k _ hworker hphase hreap.2 hreap.1
      · exact .idle
    · exact .idle

private theorem spawn_change : Change setup s (s.spawn setup) := by
  unfold State.spawn
  split
  · next hphase =>
    split
    · next hfailure => exact .gaveUp hphase hfailure
    · next hfailure => exact .spawned hphase (Bool.eq_false_iff.mpr hfailure)
  · exact .idle

private theorem finish_change : Change setup s s.finish := by
  unfold State.finish
  split
  · next hphase =>
    split
    · next hjoined => exact .returned hphase (List.all_eq_true.mp hjoined)
    · exact .idle
  · exact .idle

private theorem work_change (k : Nat) (reply : Except String Outcome) :
    Change setup s (s.work setup k reply) := by
  unfold State.work
  split
  · exact .idle
  · next worker hworker =>
    have hat := phaseAt_eq hworker
    split
    · next hphase =>
      rw [hphase] at hat
      split
      · exact .advanced k _ hat rfl rfl (by simp [WorkerPhase.rank])
      · exact .advanced k _ hat rfl rfl (by simp [WorkerPhase.rank])
    · next hphase =>
      rw [hphase] at hat
      split
      · exact .advanced k _ hat rfl rfl (by simp [WorkerPhase.rank])
      · next text => exact .freed k _ hat rfl (.inr ⟨text, rfl⟩) (by simp [WorkerPhase.rank])
    · next outcome hphase =>
      rw [hphase] at hat
      exact .freed k _ hat rfl (.inl ⟨outcome, rfl⟩) (by simp [WorkerPhase.rank])
    · next outcome hphase =>
      rw [hphase] at hat
      exact .counted k hat
    · next outcome hphase =>
      rw [hphase] at hat
      split
      · next hclosed => exact .discarded k hat hclosed
      · next hclosed =>
        split
        · next hroom => exact .sent k hat (Bool.eq_false_iff.mpr hclosed) hroom
        · exact .idle
    · exact .idle
    · exact .idle

/-- Leaving the loop keeps what is not the writer's. -/
theorem leave_change (hactive : s.writer.active = true) (fatal : DownloadError) :
    Change setup s (s.leave fatal) :=
  .failed s.cancelled s.queue s.pending fatal hactive (fun h ↦ h) (.inl rfl)

private theorem abort_change (hactive : s.writer.active = true) (fatal : DownloadError) :
    Change setup s (s.abort fatal) :=
  .failed true s.queue s.pending fatal hactive (fun _ ↦ rfl) (.inl rfl)

private theorem receive_change (hphase : s.writer = .receive) : Change setup s s.receive := by
  have hactive : s.writer.active = true := by rw [hphase]; rfl
  unfold State.receive
  split
  · next hpending => exact .held hphase hpending
  · next hpending =>
    have hnone : s.pending.get? s.nextToWrite = none := by simpa using hpending
    split
    · next idx size queue hqueue => exact .received hphase hnone hqueue
    · next idx error queue hqueue =>
      exact .failed true queue s.pending error hactive (fun _ ↦ rfl) (.inr ⟨_, hqueue⟩)
    · split
      · exact leave_change hactive _
      · exact .idle

private theorem flush_change (hphase : s.writer = .flush) : Change setup s s.flush := by
  have hactive : s.writer.active = true := by rw [hphase]; rfl
  unfold State.flush
  split
  · next hpending => exact .flushed hphase hpending
  · next size hpending =>
    split
    · exact .failed s.cancelled s.queue _ .cancelled hactive (fun h ↦ h) (.inl rfl)
    · exact .taken hphase hpending

private theorem append_change {size : Nat} (hphase : s.writer = .writing size)
    (fault : Option Fault) :
    Change setup s (s.append size fault) := by
  have hactive : s.writer.active = true := by rw [hphase]; rfl
  unfold State.append
  split
  · exact leave_change hactive _
  · exact abort_change hactive _
  · exact .appended hphase

private theorem save_change (hphase : s.writer = .saving) (fault : Option Fault) :
    Change setup s (s.save fault) := by
  have hactive : s.writer.active = true := by rw [hphase]; rfl
  unfold State.save
  split
  · exact abort_change hactive _
  · exact abort_change hactive _
  · exact .saved hphase

private theorem write_change (fault : Option Fault) : Change setup s (s.write setup fault) := by
  unfold State.write
  split
  · next hphase =>
    split
    · next hless =>
      split
      · exact leave_change (by rw [hphase]; rfl) _
      · exact .entered hphase hless
    · next hless => exact .done hphase (Nat.le_of_not_lt hless)
  · next hphase => exact receive_change hphase
  · next hphase => exact flush_change hphase
  · next size hphase => exact append_change hphase fault
  · next hphase => exact save_change hphase fault
  · next hphase => exact .closing hphase
  · next hphase => exact .closed hphase
  · exact .idle

end StepChange

/-- Each step is one of the changes. -/
theorem step_change (s : State) (op : Op) : Change setup s (setup.step s op) := by
  cases op with
  | cancel => exact .cancelled
  | stop => exact stop_change
  | admission => exact admission_change
  | acquire => exact acquire_change
  | reap k => exact reap_change k
  | spawn => exact spawn_change
  | finish => exact finish_change
  | work k reply => exact work_change k reply
  | write fault => exact write_change fault

/-! ## Workers after a change -/

/-- A phase is that of a worker. -/
theorem exists_worker {workers : List Worker} {k : Nat} {phase : WorkerPhase}
    (hphase : phaseAt workers k = some phase) :
    ∃ worker, workers[k]? = some worker ∧ worker.phase = phase := by
  simpa [phaseAt] using hphase

/-- Only the worker that changes has a new phase. -/
theorem phaseAt_setPhase {k : Nat} {old phase : WorkerPhase}
    (hworker : phaseAt s.workers k = some old) (j : Nat) :
    phaseAt (s.setPhase k phase).workers j =
      if j = k then some phase else phaseAt s.workers j := by
  obtain ⟨worker, hget, -⟩ := exists_worker hworker
  simp only [State.setPhase, phaseAt]
  split
  · next hsame =>
    subst hsame
    rw [List.getElem?_modify_eq, hget]
    rfl
  · next hne =>
    rw [List.getElem?_modify_ne _ _ (Ne.symm hne)]

/-- Joining changes no phase. -/
theorem phaseAt_setJoined (k j : Nat) :
    phaseAt (s.setJoined k).workers j = phaseAt s.workers j := by
  simp only [State.setJoined, phaseAt]
  rw [← List.getElem?_map, ← List.getElem?_map, map_modify_of_view]
  exact fun worker ↦ rfl

/-- A new worker is spawned. -/
theorem phaseAt_concat (workers : List Worker) (j : Nat) :
    phaseAt (workers ++ [({} : Worker)]) j =
      if j = workers.length then some .spawned else phaseAt workers j := by
  simp only [phaseAt]
  split
  · next hsame =>
    subst hsame
    rw [List.getElem?_concat_length]
    rfl
  · next hne =>
    rcases Nat.lt_or_gt_of_ne hne with hlt | hgt
    · rw [List.getElem?_append_left hlt]
    · rw [List.getElem?_eq_none (by simp; omega), List.getElem?_eq_none (by omega)]

/-- A phase is that of a worker that is there. -/
theorem phaseAt_lt {workers : List Worker} {k : Nat} {phase : WorkerPhase}
    (hphase : phaseAt workers k = some phase) : k < workers.length := by
  obtain ⟨worker, hworker, -⟩ := exists_worker hphase
  exact (List.getElem?_eq_some_iff.mp hworker).1

/-- A worker that holds a permit is not gone. -/
theorem not_gone_of_holding {phase : WorkerPhase} (h : phase.holding = true) :
    phase.gone = false := by
  cases phase <;> simp_all [WorkerPhase.holding, WorkerPhase.gone]

/-- Changing a phase adds no worker. -/
theorem length_setPhase (k : Nat) (phase : WorkerPhase) :
    (s.setPhase k phase).workers.length = s.workers.length :=
  List.length_modify ..

/-- Joining adds no worker. -/
theorem length_setJoined (k : Nat) : (s.setJoined k).workers.length = s.workers.length :=
  List.length_modify ..

end Engine.ReorderWindow
