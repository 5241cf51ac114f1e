import FluxDown.Engine.ReorderWindowSteps

/-!
# What holds at every moment of a playlist's download

Library `Engine`. A result is in one place only: with its worker, in the channel, with the writer or
in the file. From this follow the bound on the channel and the account of the bytes that wait.
-/

namespace Engine.ReorderWindow

open Base SegmentRetry

variable {setup : Setup} {s s' : State}

/-! ## Permits -/

/-- Workers that hold a permit. -/
def holders (workers : List Worker) : Nat := (workers.map Worker.phase).countP WorkerPhase.holding

private theorem holders_setPhase {k : Nat} {old : WorkerPhase} (phase : WorkerPhase)
    (hworker : phaseAt s.workers k = some old) :
    holders (s.setPhase k phase).workers + old.holding.toNat =
      holders s.workers + phase.holding.toNat := by
  obtain ⟨worker, hget, rfl⟩ := exists_worker hworker
  simp only [holders, List.countP_map]
  exact countP_modify _ hget

private theorem holders_setJoined (k : Nat) :
    holders (s.setJoined k).workers = holders s.workers := by
  simp only [holders, State.setJoined]
  rw [map_modify_of_view]
  exact fun worker ↦ rfl

private theorem holders_concat (workers : List Worker) :
    holders (workers ++ [({} : Worker)]) = holders workers + 1 := by
  simp [holders, WorkerPhase.holding]

/-- The dispatcher has a permit in hand. -/
def DispatcherPhase.holding : DispatcherPhase → Bool
  | acquired => true
  | _ => false

private theorem holding_again (phase : DispatcherPhase) : phase.again.holding = phase.holding := by
  cases phase <;> rfl

private theorem holding_broken (phase : DispatcherPhase) :
    phase.broken.holding = phase.holding := by
  cases phase <;> rfl

private theorem holding_nextJob (setup : Setup) (dispatched : Nat) :
    (setup.nextJob dispatched).holding = false := by
  unfold Setup.nextJob
  split <;> rfl

/-- Permits are free, with a worker or with the dispatcher. -/
def Permits (setup : Setup) (permits : Nat) (workers : List Worker) (dispatcher : DispatcherPhase) :
    Prop :=
  permits + holders workers + dispatcher.holding.toNat = setup.concurrency

/-- A change keeps the permits. -/
theorem Permits.change (h : Permits setup s.permits s.workers s.dispatcher)
    (hchange : Change setup s s') : Permits setup s'.permits s'.workers s'.dispatcher := by
  unfold Permits at *
  cases hchange with
  | stopped hwait _ =>
    rcases hwait with ⟨parked, hphase⟩ | hphase <;> simpa [hphase, DispatcherPhase.holding] using h
  | admitted hphase _ => simpa [hphase, DispatcherPhase.holding] using h
  | parked hphase _ _ => simpa [hphase, DispatcherPhase.holding] using h
  | acquired hphase hpermits =>
    simp only [hphase, DispatcherPhase.holding, Bool.toNat_false, Bool.toNat_true] at h ⊢
    omega
  | joined k _ _ _ _ =>
    simp only [holders_setJoined, holding_again]
    exact h
  | crashed k _ _ _ _ _ =>
    simp only [holders_setJoined, holding_broken]
    exact h
  | spawned hphase _ =>
    simp only [hphase, DispatcherPhase.holding, Bool.toNat_true] at h
    simp only [holders_concat, holding_nextJob, Bool.toNat_false]
    omega
  | gaveUp hphase _ =>
    simp only [hphase, DispatcherPhase.holding, Bool.toNat_true] at h
    simp only [DispatcherPhase.holding, Bool.toNat_false]
    omega
  | returned hphase _ => simpa [hphase, DispatcherPhase.holding] using h
  | advanced k phase hworker hold hphase _ =>
    have hcount := holders_setPhase phase hworker
    rw [hold, hphase] at hcount
    have hsame : (s.setPhase k phase).permits = s.permits := rfl
    have hsame' : (s.setPhase k phase).dispatcher = s.dispatcher := rfl
    rw [hsame, hsame']
    omega
  | freed k phase hworker hold hphase _ =>
    have hcount := holders_setPhase phase hworker
    have hfree : phase.holding = false := by
      rcases hphase with ⟨outcome, rfl⟩ | ⟨text, rfl⟩ <;> rfl
    rw [hold, hfree, Bool.toNat_true, Bool.toNat_false] at hcount
    have hsame : (s.setPhase k phase).dispatcher = s.dispatcher := rfl
    simp only [hsame]
    omega
  | @counted k outcome hworker =>
    have hcount := holders_setPhase (.sending outcome) hworker
    exact (congrArg (s.permits + · + s.dispatcher.holding.toNat) hcount).trans h
  | @discarded k outcome hworker _ =>
    have hcount := holders_setPhase (.finished outcome) hworker
    exact (congrArg (s.permits + · + s.dispatcher.holding.toNat) hcount).trans h
  | @sent k outcome hworker _ _ =>
    have hcount := holders_setPhase (.finished outcome) hworker
    exact (congrArg (s.permits + · + s.dispatcher.holding.toNat) hcount).trans h
  | _ => exact h

/-! ## The dispatcher -/

private theorem maxAhead_pos (setup : Setup) : 0 < setup.maxAhead := by
  have hbase : 0 < max setup.concurrency 1 := by omega
  simp only [Setup.maxAhead, reorderAheadPerConnection]
  omega

/-- Only segments within the window are admitted. -/
theorem lt_of_admits {window : WindowState} {idx : Nat} (h : setup.admits window idx = true) :
    idx < window.nextToWrite + setup.maxAhead := by
  have hpos := maxAhead_pos setup
  simp only [Setup.admits, Bool.or_eq_true, Bool.and_eq_true, decide_eq_true_eq] at h
  omega

/-- The head of the window is always admitted. -/
theorem lt_of_not_admits {window : WindowState} {idx : Nat} (h : setup.admits window idx = false) :
    window.nextToWrite < idx := by
  simp only [Setup.admits, Bool.or_eq_false_iff, decide_eq_false_iff_not] at h
  omega

/-- More bytes let no segment through. -/
theorem not_admits_account {window : WindowState} {idx : Nat} (outcome : Outcome)
    (h : setup.admits window idx = false) : setup.admits (window.account outcome) idx = false := by
  cases outcome with
  | error e => exact h
  | ok size =>
    simp only [Setup.admits, Bool.or_eq_false_iff, Bool.and_eq_false_iff] at h ⊢
    refine ⟨h.1, h.2.imp_right fun hfull ↦ decide_eq_false fun hroom ↦ ?_⟩
    exact of_decide_eq_false hfull (Nat.lt_of_le_of_lt (Nat.le_add_right _ size) hroom)

private theorem account_nextToWrite (window : WindowState) (outcome : Outcome) :
    (window.account outcome).nextToWrite = window.nextToWrite := by
  cases outcome <;> rfl

/-- An account keeps the version. -/
theorem account_version (window : WindowState) (outcome : Outcome) :
    (window.account outcome).version = window.version := by
  cases outcome <;> rfl

/-- Where the dispatcher is with what it has dispatched. A dispatcher that sleeps has seen the
present window or will be woken. -/
structure Dispatch (setup : Setup) (window : WindowState) (dispatched : Nat)
    (dispatcher : DispatcherPhase) : Prop where
  le_jobs : dispatched ≤ setup.jobs
  running : dispatcher.gone = false → dispatched < setup.jobs
  ahead : setup.first + dispatched ≤ window.nextToWrite + setup.maxAhead
  admitted : dispatcher = .acquire ∨ dispatcher = .acquired →
    setup.first + dispatched < window.nextToWrite + setup.maxAhead
  parked : ∀ seen, dispatcher = .admission (some seen) → seen ≤ window.version ∧
    (seen = window.version → setup.admits window (setup.first + dispatched) = false)

namespace Dispatch

variable {window : WindowState} {dispatched : Nat} {dispatcher dispatcher' : DispatcherPhase}

/-- The dispatcher leaves its loop. -/
theorem drain (h : Dispatch setup window dispatched dispatcher)
    (hphase : dispatcher' = .draining ∨ dispatcher' = .returned) :
    Dispatch setup window dispatched dispatcher' := by
  rcases hphase with rfl | rfl
  all_goals
    exact ⟨h.le_jobs, fun hgone ↦ (by cases hgone), h.ahead, fun hphase ↦ (by simp at hphase),
      fun seen hseen ↦ (by cases hseen)⟩

/-- The dispatcher looks at the window anew. -/
theorem renew (h : Dispatch setup window dispatched dispatcher) (hgone : dispatcher.gone = false) :
    Dispatch setup window dispatched (.admission none) :=
  ⟨h.le_jobs, fun _ ↦ h.running hgone, h.ahead, fun hphase ↦ (by simp at hphase),
    fun seen hseen ↦ (by cases hseen)⟩

/-- Looking again keeps what was dispatched. -/
theorem again (h : Dispatch setup window dispatched dispatcher) :
    Dispatch setup window dispatched dispatcher.again := by
  cases dispatcher with
  | admission parked => exact h.renew rfl
  | _ => exact h

/-- A broken window keeps what was dispatched. -/
theorem broken (h : Dispatch setup window dispatched dispatcher) :
    Dispatch setup window dispatched dispatcher.broken := by
  cases dispatcher with
  | admission parked => exact h.drain (.inl rfl)
  | _ => exact h

/-- The window moves on, and whoever sleeps is woken. -/
theorem advance (h : Dispatch setup window dispatched dispatcher) {next : Nat}
    (hnext : window.nextToWrite ≤ next) (bytes : Nat) :
    Dispatch setup (window.advance next bytes) dispatched dispatcher := by
  refine ⟨h.le_jobs, h.running, Nat.le_trans h.ahead (Nat.add_le_add_right hnext _), ?_, ?_⟩
  · intro hphase
    exact Nat.lt_of_lt_of_le (h.admitted hphase) (Nat.add_le_add_right hnext _)
  · intro seen hseen
    have hle := (h.parked seen hseen).1
    simp only [WindowState.advance]
    constructor
    · omega
    · intro hsame
      omega

/-- The window is tightened, and nobody is woken. -/
theorem account (h : Dispatch setup window dispatched dispatcher) (outcome : Outcome) :
    Dispatch setup (window.account outcome) dispatched dispatcher := by
  refine ⟨h.le_jobs, h.running, ?_, ?_, ?_⟩
  · rw [account_nextToWrite]
    exact h.ahead
  · rw [account_nextToWrite]
    exact h.admitted
  · intro seen hseen
    rw [account_version]
    obtain ⟨hle, hparked⟩ := h.parked seen hseen
    exact ⟨hle, fun hsame ↦ not_admits_account outcome (hparked hsame)⟩

/-- One more segment is dispatched. -/
theorem spawned (h : Dispatch setup window dispatched .acquired) :
    Dispatch setup window (dispatched + 1) (setup.nextJob (dispatched + 1)) := by
  have hlt := h.running rfl
  have hahead := h.admitted (.inr rfl)
  unfold Setup.nextJob
  split
  · next hless =>
    exact ⟨hlt, fun _ ↦ hless, hahead, fun hphase ↦ (by simp at hphase),
      fun seen hseen ↦ (by cases hseen)⟩
  · exact ⟨hlt, fun hgone ↦ (by cases hgone), hahead, fun hphase ↦ (by simp at hphase),
      fun seen hseen ↦ (by cases hseen)⟩

end Dispatch

/-- The dispatch of a state. -/
def State.Dispatched (setup : Setup) (s : State) : Prop :=
  Dispatch setup s.window s.workers.length s.dispatcher

private theorem dispatched_start (setup : Setup) : setup.start.Dispatched setup := by
  unfold State.Dispatched Setup.start Setup.nextJob
  split
  · next hless =>
    exact ⟨Nat.zero_le _, fun _ ↦ hless, Nat.le_add_right _ _, fun hphase ↦ (by simp at hphase),
      fun seen hseen ↦ (by cases hseen)⟩
  · exact ⟨Nat.zero_le _, fun hgone ↦ (by cases hgone), Nat.le_add_right _ _,
      fun hphase ↦ (by simp at hphase), fun seen hseen ↦ (by cases hseen)⟩

/-- A change keeps what was dispatched. -/
theorem State.Dispatched.change (h : s.Dispatched setup)
    (hwindow : s.window.nextToWrite = s.nextToWrite) (hchange : Change setup s s') :
    s'.Dispatched setup := by
  unfold State.Dispatched at *
  cases hchange with
  | stopped _ _ => exact h.drain (.inl rfl)
  | admitted hphase hadmits =>
    rw [hphase] at h
    exact ⟨h.le_jobs, fun _ ↦ h.running rfl, h.ahead, fun _ ↦ lt_of_admits hadmits,
      fun seen hseen ↦ (by cases hseen)⟩
  | parked hphase _ hadmits =>
    rw [hphase] at h
    refine ⟨h.le_jobs, fun _ ↦ h.running rfl, h.ahead, fun hphase ↦ (by simp at hphase), ?_⟩
    intro seen hseen
    cases hseen
    exact ⟨Nat.le_refl _, fun _ ↦ hadmits⟩
  | acquired hphase _ =>
    rw [hphase] at h
    exact ⟨h.le_jobs, fun _ ↦ h.running rfl, h.ahead, fun _ ↦ h.admitted (.inl rfl),
      fun seen hseen ↦ (by cases hseen)⟩
  | joined k _ _ _ _ =>
    simp only [length_setJoined]
    exact h.again
  | crashed k _ _ _ _ _ =>
    simp only [length_setJoined]
    exact h.broken
  | spawned hphase _ =>
    rw [hphase] at h
    simp only [List.length_append, List.length_singleton]
    exact h.spawned
  | gaveUp _ _ => exact h.drain (.inl rfl)
  | returned _ _ => exact h.drain (.inr rfl)
  | advanced k phase _ _ _ _ =>
    rw [length_setPhase]
    exact h
  | freed k phase _ _ _ _ =>
    simp only [length_setPhase]
    exact h
  | @counted k outcome _ =>
    simp only [length_setPhase]
    exact h.account outcome
  | discarded k _ _ =>
    rw [length_setPhase]
    exact h
  | sent k _ _ _ =>
    simp only [length_setPhase]
    exact h
  | @appended size _ => exact h.advance (by omega) size
  | _ => exact h

/-! ## Reaped workers -/

/-- What has been reaped, and what follows from a crash. -/
structure Joins (cancelled : Bool) (failure : Option DownloadError) (workers : List Worker)
    (dispatcher : DispatcherPhase) : Prop where
  gone : ∀ worker ∈ workers, worker.joined = true → worker.phase.gone = true
  crashed : ∀ worker ∈ workers, worker.joined = true → ∀ text, worker.phase = .panicked text →
    failure.isSome = true
  failed : failure.isSome = true → cancelled = true ∧
    (dispatcher = .acquired ∨ dispatcher = .draining ∨ dispatcher = .returned)
  returned : dispatcher = .returned → ∀ worker ∈ workers, worker.joined = true

namespace Joins

variable {cancelled : Bool} {failure : Option DownloadError} {workers : List Worker}
  {dispatcher : DispatcherPhase}

/-- A change of the dispatcher and of the token. -/
theorem move (h : Joins cancelled failure workers dispatcher) {cancelled' : Bool}
    {dispatcher' : DispatcherPhase} (hcancelled : cancelled = true → cancelled' = true)
    (hfailure : failure.isSome = true →
      dispatcher' = .acquired ∨ dispatcher' = .draining ∨ dispatcher' = .returned)
    (hreturned : dispatcher' = .returned → ∀ worker ∈ workers, worker.joined = true) :
    Joins cancelled' failure workers dispatcher' :=
  ⟨h.gone, h.crashed, fun hsome ↦ ⟨hcancelled (h.failed hsome).1, hfailure hsome⟩, hreturned⟩

/-- No crash is known before the dispatcher can act on it. -/
theorem not_failed (h : Joins cancelled failure workers dispatcher)
    (hphase : dispatcher ≠ .acquired ∧ dispatcher ≠ .draining ∧ dispatcher ≠ .returned) :
    ¬failure.isSome = true := by
  intro hsome
  rcases (h.failed hsome).2 with hsame | hsame | hsame
  · exact hphase.1 hsame
  · exact hphase.2.1 hsame
  · exact hphase.2.2 hsame

/-- A worker goes on that is not over. -/
theorem onPhase (h : Joins s.cancelled s.failure s.workers s.dispatcher) {k : Nat}
    {old : WorkerPhase} (phase : WorkerPhase) (hworker : phaseAt s.workers k = some old)
    (hold : old.gone = false) :
    Joins s.cancelled s.failure (s.setPhase k phase).workers s.dispatcher := by
  obtain ⟨worker, hget, hphase⟩ := exists_worker hworker
  have hunjoined : worker.joined = false := by
    by_contra hjoined
    have hgone := h.gone worker (List.mem_of_getElem? hget) (by simpa using hjoined)
    rw [hphase, hold] at hgone
    cases hgone
  refine ⟨?_, ?_, h.failed, ?_⟩
  · intro changed hchanged hjoined
    rcases mem_modify hget hchanged with rfl | hmem
    · rw [hunjoined] at hjoined
      cases hjoined
    · exact h.gone changed hmem hjoined
  · intro changed hchanged hjoined
    rcases mem_modify hget hchanged with rfl | hmem
    · rw [hunjoined] at hjoined
      cases hjoined
    · exact h.crashed changed hmem hjoined
  · intro hreturned
    have hjoined := h.returned hreturned worker (List.mem_of_getElem? hget)
    rw [hunjoined] at hjoined
    cases hjoined

end Joins

/-- What has been reaped in a state. -/
def State.Joined (s : State) : Prop := Joins s.cancelled s.failure s.workers s.dispatcher

private theorem joined_start (setup : Setup) : setup.start.Joined := by
  refine ⟨fun worker hworker ↦ (by cases hworker), fun worker hworker ↦ (by cases hworker),
    fun hsome ↦ (by cases hsome), fun _ worker hworker ↦ (by cases hworker)⟩

private theorem failed_of_again {dispatcher : DispatcherPhase}
    (h : dispatcher = .acquired ∨ dispatcher = .draining ∨ dispatcher = .returned) :
    dispatcher.again = .acquired ∨ dispatcher.again = .draining ∨ dispatcher.again = .returned := by
  rcases h with rfl | rfl | rfl <;> simp [DispatcherPhase.again]

/-- The parties after a worker was reaped. -/
theorem mem_setJoined {k : Nat} {worker changed : Worker} (hget : s.workers[k]? = some worker)
    (hchanged : changed ∈ (s.setJoined k).workers) :
    changed = { worker with joined := true } ∨ changed ∈ s.workers :=
  mem_modify hget hchanged

/-- A change keeps who was joined. -/
theorem State.Joined.change (h : s.Joined) (hchange : Change setup s s') : s'.Joined := by
  unfold State.Joined at *
  cases hchange with
  | cancelled => exact h.move (fun _ ↦ rfl) (fun hsome ↦ (h.failed hsome).2) h.returned
  | stopped _ _ => exact h.move id (fun _ ↦ .inr (.inl rfl)) (fun hphase ↦ (by cases hphase))
  | admitted hphase _ =>
    refine h.move id (fun hsome ↦ ?_) (fun hphase ↦ (by cases hphase))
    exact absurd hsome (h.not_failed (by simp [hphase]))
  | parked hphase _ _ =>
    refine h.move id (fun hsome ↦ ?_) (fun hphase ↦ (by cases hphase))
    exact absurd hsome (h.not_failed (by simp [hphase]))
  | acquired _ _ => exact h.move id (fun _ ↦ .inl rfl) (fun hphase ↦ (by cases hphase))
  | @joined k worker outcome hget hphase hunjoined hreaping =>
    refine ⟨?_, ?_, ?_, ?_⟩
    · intro changed hchanged hjoined
      rcases mem_setJoined hget hchanged with rfl | hmem
      · rw [hphase]
        rfl
      · exact h.gone changed hmem hjoined
    · intro changed hchanged hjoined text htext
      rcases mem_setJoined hget hchanged with rfl | hmem
      · rw [hphase] at htext
        cases htext
      · exact h.crashed changed hmem hjoined text htext
    · intro hsome
      obtain ⟨hcancelled, hfailed⟩ := h.failed hsome
      exact ⟨hcancelled, failed_of_again hfailed⟩
    · intro hreturned
      cases hdispatcher : s.dispatcher <;> simp [hdispatcher, DispatcherPhase.again,
        DispatcherPhase.reaping] at hreturned hreaping
  | @crashed k worker text failure hget hphase hunjoined hreaping =>
    have hsome : (s.failure.or (some failure)).isSome = true := by cases s.failure <;> rfl
    refine ⟨?_, fun _ _ _ _ _ ↦ hsome, fun _ ↦ ⟨rfl, ?_⟩, ?_⟩
    · intro changed hchanged hjoined
      rcases mem_setJoined hget hchanged with rfl | hmem
      · rw [hphase]
        rfl
      · exact h.gone changed hmem hjoined
    · cases hdispatcher : s.dispatcher <;> simp [hdispatcher, DispatcherPhase.broken,
        DispatcherPhase.reaping] at hreaping ⊢
    · intro hreturned
      cases hdispatcher : s.dispatcher <;> simp [hdispatcher, DispatcherPhase.broken,
        DispatcherPhase.reaping] at hreturned hreaping
  | spawned hphase hfailure =>
    refine ⟨?_, ?_, fun hsome ↦ ?_, fun hreturned ↦ ?_⟩
    · intro worker hworker hjoined
      rcases List.mem_append.mp hworker with hworker | hworker
      · exact h.gone worker hworker hjoined
      · rw [List.mem_singleton.mp hworker] at hjoined
        cases hjoined
    · intro worker hworker hjoined
      rcases List.mem_append.mp hworker with hworker | hworker
      · exact h.crashed worker hworker hjoined
      · rw [List.mem_singleton.mp hworker] at hjoined
        cases hjoined
    · rw [hfailure] at hsome
      cases hsome
    · simp only [Setup.nextJob] at hreturned
      split at hreturned <;> cases hreturned
  | gaveUp _ _ => exact h.move id (fun _ ↦ .inr (.inl rfl)) (fun hphase ↦ (by cases hphase))
  | returned _ hjoined => exact h.move id (fun _ ↦ .inr (.inr rfl)) (fun _ ↦ hjoined)
  | advanced k phase hworker hold _ _ =>
    exact h.onPhase phase hworker (not_gone_of_holding hold)
  | freed k phase hworker hold _ _ => exact h.onPhase phase hworker (not_gone_of_holding hold)
  | counted k hworker => exact h.onPhase _ hworker rfl
  | discarded k hworker _ => exact h.onPhase _ hworker rfl
  | sent k hworker _ _ => exact h.onPhase _ hworker rfl
  | failed cancelled _ _ _ _ hcancelled _ =>
    exact h.move hcancelled (fun hsome ↦ (h.failed hsome).2) h.returned
  | closing _ =>
    exact h.move (fun hcancelled ↦ by simp [hcancelled]) (fun hsome ↦ (h.failed hsome).2) h.returned
  | _ => exact h

/-! ## Results -/

/-- Bytes that workers from the `n`-th on have counted. -/
def unwritten (workers : List Worker) (n : Nat) : Nat :=
  ((workers.drop n).map fun worker ↦ worker.phase.counted).sum

private theorem unwritten_setPhase {k n : Nat} {old : WorkerPhase} (phase : WorkerPhase)
    (hworker : phaseAt s.workers k = some old) (hk : n ≤ k) :
    unwritten (s.setPhase k phase).workers n + old.counted =
      unwritten s.workers n + phase.counted := by
  obtain ⟨worker, hget, rfl⟩ := exists_worker hworker
  have hdrop : (s.workers.drop n)[k - n]? = some worker := by
    rw [List.getElem?_drop, Nat.add_sub_cancel' hk, hget]
  simp only [unwritten, State.setPhase, List.drop_modify_of_ge _ _ _ _ hk]
  exact sum_map_modify _ hdrop

private theorem unwritten_setPhase_of_eq {k : Nat} {old phase : WorkerPhase} (n : Nat)
    (hworker : phaseAt s.workers k = some old) (hsame : phase.counted = old.counted) :
    unwritten (s.setPhase k phase).workers n = unwritten s.workers n := by
  rcases Nat.lt_or_ge k n with hlt | hge
  · simp only [unwritten, State.setPhase, List.drop_modify_of_lt _ _ _ _ hlt]
  · have hsum := unwritten_setPhase phase hworker hge
    omega

private theorem unwritten_setJoined (k n : Nat) :
    unwritten (s.setJoined k).workers n = unwritten s.workers n := by
  simp only [unwritten, List.map_drop, State.setJoined]
  rw [map_modify_of_view]
  exact fun worker ↦ rfl

private theorem unwritten_concat {workers : List Worker} {n : Nat} (hn : n ≤ workers.length) :
    unwritten (workers ++ [({} : Worker)]) n = unwritten workers n := by
  simp [unwritten, List.drop_append_of_le_length hn, WorkerPhase.counted]

/-- The bytes of a result are counted before it is sent. -/
theorem counted_finished (outcome : Outcome) :
    (WorkerPhase.finished outcome).counted = (WorkerPhase.sending outcome).counted := by
  cases outcome <;> rfl

/-- The first of them. -/
theorem unwritten_succ {workers : List Worker} {n : Nat} {phase : WorkerPhase}
    (hworker : phaseAt workers n = some phase) :
    unwritten workers n = phase.counted + unwritten workers (n + 1) := by
  obtain ⟨worker, hget, rfl⟩ := exists_worker hworker
  obtain ⟨hlt, rfl⟩ := List.getElem?_eq_some_iff.mp hget
  simp only [unwritten, List.drop_eq_getElem_cons hlt, List.map_cons, List.sum_cons]

/-- The first segment that is not with the writer's file yet. -/
def WriterPhase.low (writer : WriterPhase) (next : Nat) : Nat :=
  match writer with
  | writing _ => next + 1
  | _ => next

private theorem WriterPhase.le_low (writer : WriterPhase) (next : Nat) :
    next ≤ writer.low next := by
  cases writer <;> simp [WriterPhase.low]

/-- Where the results are: those before `low` are in the file or on their way to it, the others that
workers have finished are in the channel or with the writer, as long as that takes them. -/
structure Order (setup : Setup) (window : WindowState) (workers : List Worker)
    (queue : List (Nat × Outcome)) (closed : Bool) (writer : WriterPhase) (next : Nat)
    (pending : SortedMap Nat Nat) : Prop where
  window_eq : window.nextToWrite = next
  first_le : setup.first ≤ next
  behind : ∀ k, setup.first + k < writer.low next →
    ∃ size, phaseAt workers k = some (.finished (.ok size))
  nodup : (queue.map Prod.fst).Nodup
  queued : ∀ entry ∈ queue, writer.low next ≤ entry.1 ∧
    phaseAt workers (entry.1 - setup.first) = some (.finished entry.2)
  apart : writer.active = true → ∀ entry ∈ queue, pending.get? entry.1 = none
  held : writer.active = true → ∀ idx size, pending.get? idx = some size →
    writer.low next ≤ idx ∧ phaseAt workers (idx - setup.first) = some (.finished (.ok size))
  writing : ∀ size, writer = .writing size →
    phaseAt workers (next - setup.first) = some (.finished (.ok size))
  delivered : writer.active = true → ∀ k outcome, phaseAt workers k = some (.finished outcome) →
    setup.first + k < writer.low next ∨ (setup.first + k, outcome) ∈ queue ∨
      (pending.get? (setup.first + k)).isSome = true
  buffered : window.buffered = unwritten workers (next - setup.first)
  ended : closed = true → queue = [] ∧ writer = .out

namespace Order

variable {window : WindowState} {workers workers' : List Worker} {queue queue' : List (Nat × Outcome)}
  {closed closed' : Bool} {writer writer' : WriterPhase} {next : Nat}
  {pending pending' : SortedMap Nat Nat}

/-- No segment is written that was not dispatched. -/
theorem next_le (h : Order setup window workers queue closed writer next pending) :
    next - setup.first ≤ workers.length := by
  by_contra hlt
  have hlow := writer.le_low next
  obtain ⟨size, hphase⟩ := h.behind workers.length (by omega)
  exact Nat.lt_irrefl _ (phaseAt_lt hphase)

/-- A worker that is not finished has a segment that is not written. -/
theorem low_le (h : Order setup window workers queue closed writer next pending) {k : Nat}
    {phase : WorkerPhase} (hphase : phaseAt workers k = some phase)
    (hunfinished : ∀ outcome, phase ≠ .finished outcome) : writer.low next ≤ setup.first + k := by
  by_contra hlt
  obtain ⟨size, hfinished⟩ := h.behind k (by omega)
  exact hunfinished _ (Option.some.inj (hphase.symm.trans hfinished))

/-- A change of workers that finish nothing. -/
theorem onWorkers (h : Order setup window workers queue closed writer next pending)
    (hphase : ∀ k outcome, phaseAt workers' k = some (.finished outcome) ↔
      phaseAt workers k = some (.finished outcome))
    {window' : WindowState} (hwindow : window'.nextToWrite = window.nextToWrite)
    (hbuffered : window'.buffered = unwritten workers' (next - setup.first)) :
    Order setup window' workers' queue closed writer next pending where
  window_eq := hwindow.trans h.window_eq
  first_le := h.first_le
  behind k hk := by
    obtain ⟨size, hfinished⟩ := h.behind k hk
    exact ⟨size, (hphase k _).mpr hfinished⟩
  nodup := h.nodup
  queued entry hentry := ⟨(h.queued entry hentry).1, (hphase _ _).mpr (h.queued entry hentry).2⟩
  apart := h.apart
  held hactive idx size hsize :=
    ⟨(h.held hactive idx size hsize).1, (hphase _ _).mpr (h.held hactive idx size hsize).2⟩
  writing size hwriting := (hphase _ _).mpr (h.writing size hwriting)
  delivered hactive k outcome hfinished := h.delivered hactive k outcome ((hphase _ _).mp hfinished)
  buffered := hbuffered
  ended := h.ended

/-- The writer moves within its loop. -/
theorem onWriter (h : Order setup window workers queue closed writer next pending)
    (hactive : writer.active = true) (hlow : writer'.low next = writer.low next)
    (hwriting : ∀ size, writer' ≠ .writing size) :
    Order setup window workers queue closed writer' next pending where
  window_eq := h.window_eq
  first_le := h.first_le
  behind k hk := h.behind k (hlow ▸ hk)
  nodup := h.nodup
  queued entry hentry := by
    rw [hlow]
    exact h.queued entry hentry
  apart _ := h.apart hactive
  held _ := by
    rw [hlow]
    exact h.held hactive
  writing size hsize := absurd hsize (hwriting size)
  delivered _ := by
    rw [hlow]
    exact h.delivered hactive
  buffered := h.buffered
  ended hclosed := by
    have hout := (h.ended hclosed).2
    rw [hout] at hactive
    cases hactive

/-- The writer leaves, and moves on behind its loop. -/
theorem retreat (h : Order setup window workers queue closed writer next pending)
    (hactive : writer'.active = false) (hqueue : queue'.Sublist queue)
    (hclosed : closed' = true → queue' = [] ∧ writer' = .out) :
    Order setup window workers queue' closed' writer' next pending' := by
  have hlow : writer'.low next ≤ writer.low next := by
    have hnext : writer'.low next = next := by cases writer' <;> first | rfl | cases hactive
    rw [hnext]
    exact writer.le_low next
  exact {
    window_eq := h.window_eq
    first_le := h.first_le
    behind := fun k hk ↦ h.behind k (Nat.lt_of_lt_of_le hk hlow)
    nodup := h.nodup.sublist (hqueue.map _)
    queued := fun entry hentry ↦
      ⟨Nat.le_trans hlow (h.queued entry (hqueue.subset hentry)).1,
        (h.queued entry (hqueue.subset hentry)).2⟩
    apart := fun hactive' ↦ by simp [hactive] at hactive'
    held := fun hactive' ↦ by simp [hactive] at hactive'
    writing := fun size hwriting ↦ by simp [hwriting, WriterPhase.active] at hactive
    delivered := fun hactive' ↦ by simp [hactive] at hactive'
    buffered := h.buffered
    ended := hclosed }

/-- A worker that is not finished is not in the channel. -/
theorem not_mem_queue (h : Order setup window workers queue closed writer next pending) {k : Nat}
    {phase : WorkerPhase} (hphase : phaseAt workers k = some phase)
    (hunfinished : ∀ outcome, phase ≠ .finished outcome) :
    setup.first + k ∉ queue.map Prod.fst := by
  intro hmem
  obtain ⟨entry, hentry, hidx⟩ := List.mem_map.mp hmem
  have hfinished := (h.queued entry hentry).2
  rw [hidx, Nat.add_sub_cancel_left, hphase] at hfinished
  exact hunfinished _ (Option.some.inj hfinished)

/-- Nor is it with the writer. -/
theorem not_held (h : Order setup window workers queue closed writer next pending)
    (hactive : writer.active = true) {k : Nat} {phase : WorkerPhase}
    (hphase : phaseAt workers k = some phase) (hunfinished : ∀ outcome, phase ≠ .finished outcome) :
    pending.get? (setup.first + k) = none := by
  cases hsize : pending.get? (setup.first + k) with
  | none => rfl
  | some size =>
    have hfinished := (h.held hactive _ size hsize).2
    rw [Nat.add_sub_cancel_left, hphase] at hfinished
    exact absurd (Option.some.inj hfinished) (hunfinished _)

/-- The writer takes the head of the channel. -/
theorem received {idx size : Nat}
    (h : Order setup window workers ((idx, .ok size) :: queue) closed writer next pending) :
    Order setup window workers queue closed writer next (pending.insert idx size) := by
  have hhead := h.queued (idx, .ok size) List.mem_cons_self
  have hnodup := h.nodup
  rw [List.map_cons, List.nodup_cons] at hnodup
  refine { h with nodup := hnodup.2, queued := ?_, apart := ?_, held := ?_, delivered := ?_, ended := ?_ }
  · intro entry hentry
    exact h.queued entry (List.mem_cons_of_mem _ hentry)
  · intro hactive entry hentry
    have hne : entry.1 ≠ idx := by
      intro hsame
      exact hnodup.1 (List.mem_map.mpr ⟨entry, hentry, hsame⟩)
    rw [SortedMap.get?_insert, if_neg hne]
    exact h.apart hactive entry (List.mem_cons_of_mem _ hentry)
  · intro hactive other size' hsize
    rw [SortedMap.get?_insert] at hsize
    split at hsize
    · next hsame =>
      obtain rfl := Option.some.inj hsize
      subst hsame
      exact hhead
    · exact h.held hactive other size' hsize
  · intro hactive k outcome hfinished
    rcases h.delivered hactive k outcome hfinished with hlow | hmem | hsome
    · exact .inl hlow
    · rcases List.mem_cons.mp hmem with hsame | hmem
      · obtain ⟨rfl, -⟩ := Prod.mk.inj hsame
        exact .inr (.inr (by simp [SortedMap.get?_insert]))
      · exact .inr (.inl hmem)
    · right
      right
      rw [SortedMap.get?_insert]
      split
      · rfl
      · exact hsome
  · intro hclosed
    cases (h.ended hclosed).1

/-- The writer goes to the file with its segment. -/
theorem taken {size : Nat} (h : Order setup window workers queue closed .flush next pending)
    (hsize : pending.get? next = some size) :
    Order setup window workers queue closed (.writing size) next (pending.erase next) := by
  have hnext := (h.held rfl next size hsize).2
  refine { h with behind := ?_, queued := ?_, apart := ?_, held := ?_, writing := ?_, delivered := ?_,
                  ended := ?_ }
  · intro k hk
    rcases Nat.lt_or_ge (setup.first + k) next with hlt | hge
    · exact h.behind k hlt
    · have hlast : k = next - setup.first := by
        simp only [WriterPhase.low] at hk
        omega
      exact ⟨size, hlast ▸ hnext⟩
  · intro entry hentry
    obtain ⟨hlow, hfinished⟩ := h.queued entry hentry
    have hne : entry.1 ≠ next := by
      intro hsame
      have hnone := h.apart rfl entry hentry
      rw [hsame, hsize] at hnone
      cases hnone
    simp only [WriterPhase.low] at hlow ⊢
    exact ⟨by omega, hfinished⟩
  · intro _ entry hentry
    rw [SortedMap.get?_erase]
    split
    · rfl
    · exact h.apart rfl entry hentry
  · intro _ idx size' hsize'
    rw [SortedMap.get?_erase] at hsize'
    split at hsize'
    · cases hsize'
    · next hne =>
      obtain ⟨hlow, hfinished⟩ := h.held rfl idx size' hsize'
      simp only [WriterPhase.low] at hlow ⊢
      exact ⟨by omega, hfinished⟩
  · intro size' hwriting
    cases hwriting
    exact hnext
  · intro _ k outcome hfinished
    rcases h.delivered rfl k outcome hfinished with hlow | hmem | hsome
    · exact .inl (Nat.lt_succ_of_lt hlow)
    · exact .inr (.inl hmem)
    · rcases eq_or_ne (setup.first + k) next with hsame | hne
      · left
        simp only [WriterPhase.low]
        omega
      · right
        right
        rw [SortedMap.get?_erase, if_neg hne]
        exact hsome
  · intro hclosed
    cases (h.ended hclosed).2

/-- The segment is in the file. -/
theorem appended {size : Nat} (h : Order setup window workers queue closed (.writing size) next pending) :
    Order setup (window.advance (next + 1) size) workers queue closed .saving (next + 1) pending where
  window_eq := rfl
  first_le := Nat.le_succ_of_le h.first_le
  behind := h.behind
  nodup := h.nodup
  queued := h.queued
  apart _ := h.apart rfl
  held _ := h.held rfl
  writing size hwriting := by cases hwriting
  delivered _ := h.delivered rfl
  buffered := by
    have hsum := unwritten_succ (h.writing size rfl)
    have hnext : next + 1 - setup.first = next - setup.first + 1 := Nat.succ_sub h.first_le
    simp only [WindowState.advance, hnext, h.buffered, hsum, WorkerPhase.counted]
    omega
  ended hclosed := by cases (h.ended hclosed).2

/-- The subtraction at the end of a write takes what is there. -/
theorem size_le {size : Nat} (h : Order setup window workers queue closed (.writing size) next pending) :
    size ≤ window.buffered := by
  have hsum := unwritten_succ (h.writing size rfl)
  rw [h.buffered, hsum]
  exact Nat.le_add_right _ _

/-- A worker puts its result into the channel. -/
theorem sent (h : Order setup s.window s.workers s.queue s.closed s.writer s.nextToWrite s.pending)
    {k : Nat} {outcome : Outcome} (hworker : phaseAt s.workers k = some (.sending outcome))
    (hopen : s.closed = false) :
    Order setup s.window (s.setPhase k (.finished outcome)).workers
      (s.queue ++ [(setup.first + k, outcome)]) s.closed s.writer s.nextToWrite s.pending := by
  have hunfinished : ∀ outcome', WorkerPhase.sending outcome ≠ .finished outcome' := by
    intro outcome' hsame
    cases hsame
  have hkeep : ∀ {j : Nat} {outcome' : Outcome}, phaseAt s.workers j = some (.finished outcome') →
      phaseAt (s.setPhase k (.finished outcome)).workers j = some (.finished outcome') := by
    intro j outcome' hfinished
    rw [phaseAt_setPhase hworker]
    split
    · next hsame =>
      rw [hsame, hworker] at hfinished
      cases hfinished
    · exact hfinished
  have hself : phaseAt (s.setPhase k (.finished outcome)).workers k = some (.finished outcome) := by
    rw [phaseAt_setPhase hworker, if_pos rfl]
  refine { h with behind := ?_, nodup := ?_, queued := ?_, apart := ?_, held := ?_, writing := ?_,
                  delivered := ?_, buffered := ?_, ended := ?_ }
  · intro j hj
    obtain ⟨size, hfinished⟩ := h.behind j hj
    exact ⟨size, hkeep hfinished⟩
  · rw [List.map_append, List.map_singleton, ← List.concat_eq_append]
    exact h.nodup.concat (h.not_mem_queue hworker hunfinished)
  · intro entry hentry
    rcases List.mem_append.mp hentry with hentry | hentry
    · exact ⟨(h.queued entry hentry).1, hkeep (h.queued entry hentry).2⟩
    · obtain rfl := List.mem_singleton.mp hentry
      refine ⟨h.low_le hworker hunfinished, ?_⟩
      rw [Nat.add_sub_cancel_left]
      exact hself
  · intro hactive entry hentry
    rcases List.mem_append.mp hentry with hentry | hentry
    · exact h.apart hactive entry hentry
    · obtain rfl := List.mem_singleton.mp hentry
      exact h.not_held hactive hworker hunfinished
  · intro hactive idx size hsize
    exact ⟨(h.held hactive idx size hsize).1, hkeep (h.held hactive idx size hsize).2⟩
  · intro size hwriting
    exact hkeep (h.writing size hwriting)
  · intro hactive j outcome' hfinished
    rw [phaseAt_setPhase hworker] at hfinished
    split at hfinished
    · next hsame =>
      subst hsame
      cases hfinished
      exact .inr (.inl (List.mem_append_right _ (List.mem_singleton.mpr rfl)))
    · rcases h.delivered hactive j outcome' hfinished with hlow | hmem | hsome
      · exact .inl hlow
      · exact .inr (.inl (List.mem_append_left _ hmem))
      · exact .inr (.inr hsome)
  · rw [unwritten_setPhase_of_eq _ hworker (counted_finished outcome)]
    exact h.buffered
  · intro hclosed
    rw [hopen] at hclosed
    cases hclosed

/-- A worker finds the channel closed. -/
theorem discarded
    (h : Order setup s.window s.workers s.queue s.closed s.writer s.nextToWrite s.pending)
    {k : Nat} {outcome : Outcome} (hworker : phaseAt s.workers k = some (.sending outcome))
    (hclosed : s.closed = true) :
    Order setup s.window (s.setPhase k (.finished outcome)).workers s.queue s.closed s.writer
      s.nextToWrite s.pending := by
  obtain ⟨hqueue, hout⟩ := h.ended hclosed
  refine { h with behind := ?_, queued := ?_, held := ?_, writing := ?_, delivered := ?_,
                  buffered := ?_ }
  · intro j hj
    obtain ⟨size, hfinished⟩ := h.behind j hj
    refine ⟨size, ?_⟩
    rw [phaseAt_setPhase hworker]
    split
    · next hsame =>
      rw [hsame, hworker] at hfinished
      cases hfinished
    · exact hfinished
  · rw [hqueue]
    simp
  · simp [hout, WriterPhase.active]
  · simp [hout]
  · simp [hout, WriterPhase.active]
  · rw [unwritten_setPhase_of_eq _ hworker (counted_finished outcome)]
    exact h.buffered

end Order

/-- The results of a state. -/
def State.Ordered (setup : Setup) (s : State) : Prop :=
  Order setup s.window s.workers s.queue s.closed s.writer s.nextToWrite s.pending

private theorem ordered_start (setup : Setup) : setup.start.Ordered setup where
  window_eq := rfl
  first_le := Nat.le_refl _
  behind k hk := by
    simp only [Setup.start, WriterPhase.low] at hk
    omega
  nodup := List.nodup_nil
  queued entry hentry := by cases hentry
  apart _ entry hentry := by cases hentry
  held _ idx size hsize := by cases hsize
  writing size hwriting := by cases hwriting
  delivered _ k outcome hfinished := by cases hfinished
  buffered := by simp [Setup.start, unwritten]
  ended hclosed := by cases hclosed

/-- A worker goes on that finishes nothing. -/
theorem State.Ordered.onPhase (h : s.Ordered setup) {k : Nat} {old phase : WorkerPhase}
    (hworker : phaseAt s.workers k = some old) (hold : ∀ outcome, old ≠ .finished outcome)
    (hphase : ∀ outcome, phase ≠ .finished outcome) {window : WindowState}
    (hwindow : window.nextToWrite = s.window.nextToWrite)
    (hbuffered : window.buffered + old.counted = s.window.buffered + phase.counted) :
    Order setup window (s.setPhase k phase).workers s.queue s.closed s.writer s.nextToWrite
      s.pending := by
  apply Order.onWorkers h _ hwindow
  · have hlow := h.low_le hworker hold
    have hnext := s.writer.le_low s.nextToWrite
    have hsum := unwritten_setPhase phase hworker
      (n := s.nextToWrite - setup.first) (by omega)
    have hsame := h.buffered
    omega
  · intro j outcome
    rw [phaseAt_setPhase hworker]
    split
    · next hsame =>
      rw [hsame, hworker]
      simp [hold, hphase]
    · rfl

private theorem counted_of_holding {phase : WorkerPhase} (h : phase.holding = true) :
    phase.counted = 0 ∧ ∀ outcome, phase ≠ .finished outcome := by
  cases phase <;> simp_all [WorkerPhase.holding, WorkerPhase.counted]

/-- A change keeps the order. -/
theorem State.Ordered.change (h : s.Ordered setup) (hchange : Change setup s s') :
    s'.Ordered setup := by
  unfold State.Ordered at *
  cases hchange with
  | joined k hget _ _ _ =>
    refine Order.onWorkers h (fun j outcome ↦ ?_) rfl ?_
    · rw [phaseAt_setJoined]
    · rw [unwritten_setJoined]
      exact h.buffered
  | crashed k failure hget _ _ _ =>
    refine Order.onWorkers h (fun j outcome ↦ ?_) rfl ?_
    · rw [phaseAt_setJoined]
    · rw [unwritten_setJoined]
      exact h.buffered
  | spawned _ _ =>
    refine Order.onWorkers h (fun j outcome ↦ ?_) rfl ?_
    · rw [phaseAt_concat]
      split
      · next hsame =>
        subst hsame
        simp [phaseAt]
      · rfl
    · rw [unwritten_concat h.next_le]
      exact h.buffered
  | advanced k phase hworker hold hphase _ =>
    obtain ⟨hcounted, hunfinished⟩ := counted_of_holding hold
    obtain ⟨hcounted', hunfinished'⟩ := counted_of_holding hphase
    apply State.Ordered.onPhase h hworker hunfinished hunfinished' rfl
    rw [hcounted, hcounted']
  | freed k phase hworker hold hphase _ =>
    obtain ⟨hcounted, hunfinished⟩ := counted_of_holding hold
    apply State.Ordered.onPhase h hworker hunfinished _ rfl
    · rw [hcounted]
      rcases hphase with ⟨outcome, rfl⟩ | ⟨text, rfl⟩ <;> rfl
    · intro outcome
      rcases hphase with ⟨outcome', rfl⟩ | ⟨text, rfl⟩ <;> simp
  | @counted k outcome hworker =>
    apply State.Ordered.onPhase h hworker _ _ (account_nextToWrite _ _)
    · cases outcome <;> rfl
    · intro outcome' hsame
      cases hsame
    · intro outcome' hsame
      cases hsame
  | discarded k hworker hclosed => exact Order.discarded h hworker hclosed
  | sent k hworker hclosed _ => exact Order.sent h hworker hclosed
  | entered hphase _ =>
    rw [hphase] at h
    exact h.onWriter rfl rfl (by simp)
  | done hphase _ =>
    refine h.retreat rfl (List.Sublist.refl _) fun hclosed ↦ ?_
    have hout := (h.ended hclosed).2
    rw [hphase] at hout
    cases hout
  | held hphase _ =>
    rw [hphase] at h
    exact h.onWriter rfl rfl (by simp)
  | received _ _ hqueue =>
    rw [hqueue] at h
    exact h.received
  | flushed hphase _ =>
    rw [hphase] at h
    exact h.onWriter rfl rfl (by simp)
  | taken hphase hpending =>
    rw [hphase] at h
    exact h.taken hpending
  | appended hphase =>
    rw [hphase] at h
    exact h.appended
  | saved hphase =>
    rw [hphase] at h
    exact h.onWriter rfl rfl (by simp)
  | failed cancelled queue pending fatal hactive _ hqueue =>
    apply h.retreat rfl
    · rcases hqueue with rfl | ⟨head, hqueue⟩
      · exact List.Sublist.refl _
      · rw [hqueue]
        exact List.sublist_cons_self head queue
    · intro hclosed
      rw [(h.ended hclosed).2] at hactive
      cases hactive
  | closing hphase =>
    refine h.retreat rfl (List.Sublist.refl _) fun hclosed ↦ ?_
    have hout := (h.ended hclosed).2
    rw [hphase] at hout
    cases hout
  | closed _ => exact h.retreat rfl (List.nil_sublist _) fun _ ↦ ⟨rfl, rfl⟩
  | _ => exact h

/-! ## The writer -/

/-- What is in the file and why the writer has left its loop. -/
structure State.Written (setup : Setup) (s : State) : Prop where
  written_eq : s.written = List.range' setup.first (s.nextToWrite - setup.first)
  final : s.writer.active = false → s.fatalError.isSome = true ∨ setup.count ≤ s.nextToWrite
  stopped : s.writer = .closing ∨ s.writer = .out → s.fatalError.isSome = true → s.cancelled = true
  closed_of_out : s.writer = .out → s.closed = true

private theorem written_start (setup : Setup) : setup.start.Written setup := by
  refine ⟨?_, fun hleft ↦ (by cases hleft), fun hphase ↦ ?_, fun hphase ↦ (by cases hphase)⟩
  · simp [Setup.start]
  · simp [Setup.start] at hphase

/-- A change keeps what was written. -/
theorem State.Written.change (h : s.Written setup) (hfirst : setup.first ≤ s.nextToWrite)
    (hchange : Change setup s s') : s'.Written setup := by
  cases hchange with
  | cancelled => exact ⟨h.written_eq, h.final, fun _ _ ↦ rfl, h.closed_of_out⟩
  | crashed k failure _ _ _ _ => exact ⟨h.written_eq, h.final, fun _ _ ↦ rfl, h.closed_of_out⟩
  | entered _ _ =>
    exact ⟨h.written_eq, fun hleft ↦ (by cases hleft), fun hphase ↦ (by simp at hphase),
      fun hphase ↦ (by cases hphase)⟩
  | done _ hcount =>
    exact ⟨h.written_eq, fun _ ↦ .inr hcount, fun hphase ↦ (by simp at hphase),
      fun hphase ↦ (by cases hphase)⟩
  | held _ _ =>
    exact ⟨h.written_eq, fun hleft ↦ (by cases hleft), fun hphase ↦ (by simp at hphase),
      fun hphase ↦ (by cases hphase)⟩
  | flushed _ _ =>
    exact ⟨h.written_eq, fun hleft ↦ (by cases hleft), fun hphase ↦ (by simp at hphase),
      fun hphase ↦ (by cases hphase)⟩
  | taken _ _ =>
    exact ⟨h.written_eq, fun hleft ↦ (by cases hleft), fun hphase ↦ (by simp at hphase),
      fun hphase ↦ (by cases hphase)⟩
  | appended _ =>
    refine ⟨?_, fun hleft ↦ (by cases hleft), fun hphase ↦ (by simp at hphase),
      fun hphase ↦ (by cases hphase)⟩
    have hlength : s.nextToWrite + 1 - setup.first = s.nextToWrite - setup.first + 1 :=
      Nat.succ_sub hfirst
    rw [hlength, List.range'_concat, h.written_eq, Nat.one_mul, Nat.add_sub_cancel' hfirst]
  | saved _ =>
    exact ⟨h.written_eq, fun hleft ↦ (by cases hleft), fun hphase ↦ (by simp at hphase),
      fun hphase ↦ (by cases hphase)⟩
  | failed cancelled queue pending fatal _ _ _ =>
    exact ⟨h.written_eq, fun _ ↦ .inl rfl, fun hphase ↦ (by simp at hphase),
      fun hphase ↦ (by cases hphase)⟩
  | closing hphase =>
    refine ⟨h.written_eq, fun _ ↦ h.final (by rw [hphase]; rfl), fun _ hsome ↦ ?_,
      fun hphase ↦ (by cases hphase)⟩
    exact Bool.or_eq_true_iff.mpr (.inr hsome)
  | closed hphase =>
    exact ⟨h.written_eq, fun _ ↦ h.final (by rw [hphase]; rfl), fun _ ↦ h.stopped (.inl hphase),
      fun _ ↦ rfl⟩
  | _ => exact ⟨h.written_eq, h.final, h.stopped, h.closed_of_out⟩

/-! ## Runs -/

/-- What holds at every moment. -/
structure Sound (setup : Setup) (s : State) : Prop where
  permits : Permits setup s.permits s.workers s.dispatcher
  dispatched : s.Dispatched setup
  joined : s.Joined
  ordered : s.Ordered setup
  written : s.Written setup

/-- A start is sound. -/
theorem sound_start (setup : Setup) : Sound setup setup.start where
  permits := by
    have hfree := holding_nextJob setup 0
    simp only [Permits, Setup.start, hfree, holders, List.map_nil, List.countP_nil, Bool.toNat_false]
    omega
  dispatched := dispatched_start setup
  joined := joined_start setup
  ordered := ordered_start setup
  written := written_start setup

/-- One step keeps it. -/
theorem Sound.step (h : Sound setup s) (op : Op) : Sound setup (setup.step s op) :=
  have hchange := step_change s op
  { permits := h.permits.change hchange
    dispatched := h.dispatched.change h.ordered.window_eq hchange
    joined := h.joined.change hchange
    ordered := h.ordered.change hchange
    written := h.written.change h.ordered.first_le hchange }

/-- Every state of a run is sound. -/
theorem sound_run (setup : Setup) (ops : List Op) :
    Sound setup (run setup.step setup.start ops) :=
  run_preserves (fun _ op h ↦ h.step op) (sound_start setup) ops

namespace Sound

/-- At most one connection each is in use. -/
theorem holders_le (h : Sound setup s) : holders s.workers ≤ setup.concurrency := by
  have hpermits := h.permits
  unfold Permits at hpermits
  omega

/-- What is dispatched is within the window. -/
theorem dispatched_lt (h : Sound setup s) {k : Nat} (hk : k < s.workers.length) :
    setup.first + k < s.window.nextToWrite + setup.maxAhead := by
  have hahead := h.dispatched.ahead
  omega

/-- The channel has room for every worker that sends. -/
theorem room (h : Sound setup s) {k : Nat} {outcome : Outcome}
    (hworker : phaseAt s.workers k = some (.sending outcome)) : s.queue.length < setup.maxAhead := by
  have hunfinished : ∀ outcome', WorkerPhase.sending outcome ≠ .finished outcome' := by
    intro outcome' hsame
    cases hsame
  have hfresh := h.ordered.not_mem_queue hworker hunfinished
  have hnodup : ((setup.first + k) :: s.queue.map Prod.fst).Nodup :=
    List.nodup_cons.mpr ⟨hfresh, h.ordered.nodup⟩
  have hlow := s.writer.le_low s.nextToWrite
  have hnext := h.ordered.window_eq
  have hwithin : (setup.first + k) :: s.queue.map Prod.fst ⊆
      List.range' s.nextToWrite setup.maxAhead := by
    intro idx hidx
    rw [List.mem_range'_1]
    rcases List.mem_cons.mp hidx with rfl | hidx
    · have hle := h.ordered.low_le hworker hunfinished
      have hlt := h.dispatched_lt (phaseAt_lt hworker)
      omega
    · obtain ⟨entry, hentry, rfl⟩ := List.mem_map.mp hidx
      obtain ⟨hle, hfinished⟩ := h.ordered.queued entry hentry
      have hlt := h.dispatched_lt (phaseAt_lt hfinished)
      have hfirst := h.ordered.first_le
      omega
  have hlength := (hnodup.subperm hwithin).length_le
  simp only [List.length_cons, List.length_map, List.length_range'] at hlength
  omega

end Sound

end Engine.ReorderWindow
