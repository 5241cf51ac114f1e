import FluxDown.Engine.SyncGate

/-!
# Durable offsets are durable

Library `Engine`. A snapshot is watched from the moment its clock reading is taken: its bytes
are flushed, and every sync that started no earlier than the reading has them. Trusting the
start of a completed sync is then sound. Because syncs exclude one another, the start of the
last completed sync never moves back, and neither does a writer's watermark.
-/

namespace Engine.SyncGate

open Base

/-- The first `off` bytes of writer `w`, read at instant `t`, are flushed, and every sync with a
start no earlier than `t` has them. -/
structure Watched (s : System) (w : Nat) (flushed off : Int) (t : Nat) : Prop where
  /-- The reading is not in the future. -/
  read : t ≤ s.clock
  /-- The bytes left the buffer. -/
  flushed_ge : off ≤ flushed
  /-- Completed syncs that started no earlier have the bytes. -/
  completed : ∀ c ∈ s.completed, t ≤ c.start → c.captured.Covers w off
  /-- So has the sync in flight. -/
  inFlight : ∀ f start captured, s.inFlight = some f → f.start = some start →
    f.captured = some captured → t ≤ start → captured.Covers w off

/-- What the code has established when a writer reaches a phase. -/
def PhaseOk (s : System) (w : Nat) (writer : Writer) : WriterPhase → Prop
  | .flushed | .finalFlushed => writer.flushed = writer.segDownloaded
  | .snapped snap snapT => snap = writer.segDownloaded ∧ Watched s w writer.flushed snap snapT
  | .committed prevDurable | .kicked prevDurable =>
    writer.durableOffset ≠ prevDurable → s.Durable w writer.durableOffset
  | .covering snapT | .owning snapT => Watched s w writer.flushed writer.segDownloaded snapT
  | .covered => s.Durable w writer.segDownloaded
  | .streaming | .finished => True

/-- What holds of a writer. -/
structure WriterOk (s : System) (w : Nat) (writer : Writer) : Prop where
  /-- The buffer holds what is not flushed. -/
  flushed_le : writer.flushed ≤ writer.segDownloaded
  /-- The watermark is below the progress. -/
  durable_le : writer.durableOffset ≤ writer.segDownloaded
  /-- The pending snapshot lies between them and is watched. -/
  pending : ∀ off t, writer.pendingSnap = some (off, t) →
    writer.durableOffset ≤ off ∧ off ≤ writer.segDownloaded ∧ Watched s w writer.flushed off t
  /-- The phase carries what its code has established. -/
  phase : PhaseOk s w writer writer.phase

/-- The system invariant. -/
structure System.Inv (s : System) : Prop where
  /-- The gate is taken exactly while a sync is in flight. -/
  exclusive : s.gate.syncing = s.inFlight.isSome
  /-- The last completed start is that of a completed sync. -/
  last_mem : ∀ l, s.gate.lastCompletedStart = some l → ∃ c ∈ s.completed, c.start = l
  /-- Completed syncs started in the past. -/
  completed_le : ∀ c ∈ s.completed, c.start ≤ s.clock
  /-- The sync in flight starts no earlier than the last completed one, reads its start before
  it begins, and its owner waits for it. -/
  flight : ∀ f, s.inFlight = some f → (f.start = none → f.captured = none) ∧
    (∀ start, f.start = some start → start ≤ s.clock ∧
      ∀ l, s.gate.lastCompletedStart = some l → l ≤ start) ∧
    ∀ w, f.owner = some w → ∃ writer snapT, s.writers.get? w = some writer ∧
      writer.phase = .owning snapT ∧ ∀ start, f.start = some start → snapT ≤ start
  /-- Every writer is in order. -/
  writers : ∀ w writer, s.writers.get? w = some writer → WriterOk s w writer
  /-- Every recorded offset is durable. -/
  recorded : ∀ r ∈ s.recorded, s.Durable r.1 r.2

/-! ## Writers under a change of the syncs -/

private theorem Captured.Covers.mono {c : Captured} {w : Nat} {off off' : Int} (h : c.Covers w off)
    (hle : off' ≤ off) : c.Covers w off' := by
  obtain ⟨n, hn, hoff⟩ := h
  exact ⟨n, hn, le_trans hle hoff⟩

/-- A writer stays in order when watched snapshots stay watched and durable offsets durable. -/
theorem WriterOk.transport {s s' : System} {w : Nat} {writer : Writer}
    (h : WriterOk s w writer)
    (hwatched : ∀ off t, Watched s w writer.flushed off t → Watched s' w writer.flushed off t)
    (hdurable : ∀ off, s.Durable w off → s'.Durable w off) : WriterOk s' w writer := by
  refine ⟨h.flushed_le, h.durable_le, fun off t hp ↦ ?_, ?_⟩
  · obtain ⟨h₁, h₂, h₃⟩ := h.pending off t hp
    exact ⟨h₁, h₂, hwatched off t h₃⟩
  · have hphase := h.phase
    cases heq : writer.phase <;> rw [heq] at hphase
    · trivial
    · exact hphase
    · exact ⟨hphase.1, hwatched _ _ hphase.2⟩
    · exact fun hne ↦ hdurable _ (hphase hne)
    · exact fun hne ↦ hdurable _ (hphase hne)
    · exact hphase
    · exact hwatched _ _ hphase
    · exact hwatched _ _ hphase
    · exact hdurable _ hphase
    · trivial

/-- A covered watched snapshot is durable. -/
theorem durable_of_covers {s : System} (h : s.Inv) {w : Nat} {flushed off : Int} {t : Nat}
    (hwatched : Watched s w flushed off t) (hcovers : s.gate.covers t = true) :
    s.Durable w off := by
  unfold GateState.covers at hcovers
  split at hcovers
  · next start hlast =>
    obtain ⟨c, hc, hstart⟩ := h.last_mem start hlast
    have hle : t ≤ start := of_decide_eq_true hcovers
    exact ⟨c, hc, hwatched.completed c hc (by omega)⟩
  · exact absurd hcovers (by simp)

/-- A snapshot taken while the clock separates it from earlier syncs is watched. -/
theorem watched_of_separates {s : System} (h : s.Inv) {w : Nat} {flushed off : Int}
    (hflushed : off ≤ flushed) (hclock : s.ClockSeparates w off) :
    Watched s w flushed off s.clock where
  read := le_refl _
  flushed_ge := hflushed
  completed c hc hle := hclock.1 c hc (le_antisymm (h.completed_le c hc) hle)
  inFlight f start captured hf hstart hcap hle := by
    have hpast := ((h.flight f hf).2.1 start hstart).1
    apply hclock.2 f hf _ captured hcap
    rw [hstart, le_antisymm hpast hle]

/-! ## Steps of a writer -/

/-- Replacing a writer by one in order keeps the invariant, if a writer that owns the sync in
flight keeps its phase. -/
theorem inv_setWriter {s : System} (h : s.Inv) {w : Nat} {writer writer' : Writer}
    (hget : s.writers.get? w = some writer) (hok : WriterOk s w writer')
    (howner : s.inFlight.isSome → ∀ snapT, writer.phase = .owning snapT →
      writer'.phase = .owning snapT) :
    (s.setWriter w writer').Inv := by
  refine ⟨h.exclusive, h.last_mem, h.completed_le, fun f hf ↦ ?_, fun w' wr hwr ↦ ?_,
    h.recorded⟩
  · obtain ⟨h₁, h₂, h₃⟩ := h.flight f hf
    refine ⟨h₁, h₂, fun w' hw' ↦ ?_⟩
    obtain ⟨wr, snapT, hwr, hphase, hstart⟩ := h₃ w' hw'
    have hbusy : s.inFlight.isSome := by
      rw [show s.inFlight = some f from hf]
      rfl
    by_cases hw : w' = w
    · subst hw
      rw [hget] at hwr
      obtain rfl := Option.some.inj hwr
      refine ⟨writer', snapT, ?_, howner hbusy snapT hphase, hstart⟩
      rw [System.setWriter, SortedMap.get?_insert, if_pos rfl]
    · refine ⟨wr, snapT, ?_, hphase, hstart⟩
      rw [System.setWriter, SortedMap.get?_insert, if_neg hw]
      exact hwr
  · change (s.writers.insert w writer').get? w' = some wr at hwr
    rw [SortedMap.get?_insert] at hwr
    have hcopy : ∀ wr, WriterOk s w' wr → WriterOk (s.setWriter w writer') w' wr := fun wr hwr ↦
      hwr.transport (fun _ _ hwatch ↦ ⟨hwatch.read, hwatch.flushed_ge, hwatch.completed,
        hwatch.inFlight⟩) fun _ hd ↦ hd
    split at hwr
    · next hw =>
      obtain rfl := Option.some.inj hwr
      exact hcopy _ (hw ▸ hok)
    · exact hcopy wr (h.writers w' wr hwr)

/-- Recording a durable offset keeps the invariant. -/
theorem inv_record {s : System} (h : s.Inv) {w : Nat} {off : Int}
    (hdurable : s.Durable w off) (progress : SortedMap Int Int) :
    System.Inv { s with durableProgress := progress, recorded := (w, off) :: s.recorded } := by
  refine ⟨h.exclusive, h.last_mem, h.completed_le, h.flight, fun w' wr hwr ↦ ?_, fun r hr ↦ ?_⟩
  · exact (h.writers w' wr hwr).transport (fun _ _ hwatch ↦ ⟨hwatch.read, hwatch.flushed_ge,
      hwatch.completed, hwatch.inFlight⟩) fun _ hd ↦ hd
  · rcases List.mem_cons.mp hr with rfl | hr
    · exact hdurable
    · exact h.recorded r hr

/-- Taking a free gate keeps the invariant. -/
theorem inv_takeGate {s : System} (h : s.Inv) {owner : Option Nat}
    (howner : ∀ w, owner = some w → ∃ writer snapT, s.writers.get? w = some writer ∧
      writer.phase = .owning snapT) : (s.takeGate owner).Inv := by
  refine ⟨rfl, h.last_mem, h.completed_le, fun f hf ↦ ?_, fun w wr hwr ↦ ?_, h.recorded⟩
  · obtain rfl := Option.some.inj hf
    refine ⟨fun _ ↦ rfl, fun start hstart ↦ absurd hstart (by simp), fun w hw ↦ ?_⟩
    obtain ⟨writer, snapT, hget, hphase⟩ := howner w hw
    exact ⟨writer, snapT, hget, hphase, fun start hstart ↦ absurd hstart (by simp)⟩
  · refine (h.writers w wr hwr).transport (fun _ _ hwatch ↦ ⟨hwatch.read, hwatch.flushed_ge,
      hwatch.completed, fun f start captured hf hstart _ _ ↦ ?_⟩) fun _ hd ↦ hd
    obtain rfl := Option.some.inj hf
    exact absurd hstart (by simp)

/-- Flushing more bytes keeps a snapshot watched. -/
theorem Watched.flush {s : System} {w : Nat} {flushed flushed' off : Int} {t : Nat}
    (h : Watched s w flushed off t) (hle : flushed ≤ flushed') : Watched s w flushed' off t where
  read := h.read
  flushed_ge := le_trans h.flushed_ge hle
  completed := h.completed
  inFlight := h.inFlight

/-- A writer that only flushes stays in order. -/
theorem WriterOk.flush {s : System} {w : Nat} {writer : Writer} (h : WriterOk s w writer)
    {n : Int} (hlo : writer.flushed ≤ n) (hhi : n ≤ writer.segDownloaded) :
    WriterOk s w { writer with flushed := n } := by
  refine ⟨hhi, h.durable_le, fun off t hp ↦ ?_, ?_⟩
  · obtain ⟨h₁, h₂, h₃⟩ := h.pending off t hp
    exact ⟨h₁, h₂, h₃.flush hlo⟩
  · have hphase := h.phase
    dsimp only
    cases heq : writer.phase <;> rw [heq] at hphase
    · trivial
    · exact le_antisymm hhi (le_trans (ge_of_eq hphase) hlo)
    · exact ⟨hphase.1, hphase.2.flush hlo⟩
    · exact hphase
    · exact hphase
    · exact le_antisymm hhi (le_trans (ge_of_eq hphase) hlo)
    · exact hphase.flush hlo
    · exact hphase.flush hlo
    · exact hphase
    · trivial

/-- A writer moves to a phase its data has established. -/
theorem WriterOk.withPhase {s : System} {w : Nat} {writer : Writer}
    (h : WriterOk s w writer) (phase : WriterPhase) (hphase : PhaseOk s w writer phase) :
    WriterOk s w { writer with phase := phase } := by
  refine ⟨h.flushed_le, h.durable_le, h.pending, ?_⟩
  cases phase <;> exact hphase

/-- A writer that flushed everything is in order in a phase that says so. -/
theorem WriterOk.flushAll {s : System} {w : Nat} {writer : Writer}
    (h : WriterOk s w writer) {phase : WriterPhase}
    (hphase : phase = .flushed ∨ phase = .finalFlushed) :
    WriterOk s w { writer with flushed := writer.segDownloaded, phase := phase } := by
  have hflush := h.flush h.flushed_le (le_refl _)
  refine ⟨hflush.flushed_le, hflush.durable_le, hflush.pending, ?_⟩
  rcases hphase with rfl | rfl <;> rfl

/-- Updating the watermark of a snapped writer. -/
theorem WriterOk.committed {s : System} (hinv : s.Inv) {w : Nat} {writer : Writer}
    (h : WriterOk s w writer) {snap : Int} {snapT : Nat}
    (hphase : writer.phase = .snapped snap snapT) :
    WriterOk s w
      { writer.commit s.gate snap snapT with phase := .committed writer.durableOffset } := by
  have hsnapped := h.phase
  rw [hphase] at hsnapped
  obtain ⟨rfl, hwatch⟩ := hsnapped
  unfold Writer.commit
  split
  · next off t hpending =>
    obtain ⟨hlo, hhi, hold⟩ := h.pending off t hpending
    split
    · next hcovers =>
      refine ⟨h.flushed_le, hhi, fun off' t' hp ↦ ?_, fun _ ↦ ?_⟩
      · obtain ⟨rfl, rfl⟩ := Prod.mk.inj (Option.some.inj hp)
        exact ⟨hhi, le_refl _, hwatch⟩
      · exact durable_of_covers hinv hold hcovers
    · exact ⟨h.flushed_le, h.durable_le, h.pending, fun hne ↦ absurd rfl hne⟩
  · refine ⟨h.flushed_le, h.durable_le, fun off' t' hp ↦ ?_, fun hne ↦ absurd rfl hne⟩
    obtain ⟨rfl, rfl⟩ := Prod.mk.inj (Option.some.inj hp)
    exact ⟨h.durable_le, le_refl _, hwatch⟩

/-- A writer keeps the invariant if it reads the clock separated from earlier syncs. -/
theorem inv_write {s : System} (h : s.Inv) {w : Nat} {writer : Writer}
    (hget : s.writers.get? w = some writer) {a : WriterAction}
    (hclock : a = .snapshot ∨ a = .finalSnapshot → s.ClockSeparates w writer.segDownloaded) :
    (s.write w writer a).Inv := by
  have hok := h.writers w writer hget
  cases a with
  | write n =>
    simp only [System.write]
    split
    · next hn =>
      apply inv_setWriter h hget
      · refine ⟨by have := hok.flushed_le; dsimp only; omega,
          by have := hok.durable_le; dsimp only; omega, fun off t hp ↦ ?_, ?_⟩
        · obtain ⟨h₁, h₂, h₃⟩ := hok.pending off t hp
          exact ⟨h₁, by dsimp only; omega, h₃⟩
        · dsimp only
          rw [hn.1]
          trivial
      · exact fun _ _ hp ↦ hp
    · exact h
  | spill n =>
    simp only [System.write]
    split
    · next hn => exact inv_setWriter h hget (hok.flush hn.1 hn.2) fun _ _ hp ↦ hp
    · exact h
  | beginPass =>
    simp only [System.write]
    split
    · next hn =>
      have howner : ∀ (snapT : Nat) (phase : WriterPhase), writer.phase = .owning snapT →
          phase = .owning snapT := fun _ _ hp ↦ absurd (hn.1.symm.trans hp) (by simp)
      split
      · exact inv_setWriter h hget (hok.withPhase .finished trivial) fun _ _ hp ↦ howner _ _ hp
      · exact inv_setWriter h hget (hok.flushAll (Or.inl rfl)) fun _ _ hp ↦ howner _ _ hp
    · exact h
  | snapshot =>
    simp only [System.write]
    split
    · next hphase =>
      have hflushed := hok.phase
      rw [hphase] at hflushed
      have hwatch := watched_of_separates h (ge_of_eq hflushed) (hclock (Or.inl rfl))
      exact inv_setWriter h hget (hok.withPhase (.snapped _ _) ⟨rfl, hwatch⟩)
        fun _ _ hp ↦ absurd (hphase.symm.trans hp) (by simp)
    · exact h
  | commit =>
    simp only [System.write]
    split
    · next snap snapT hphase =>
      exact inv_setWriter h hget (hok.committed h hphase)
        fun _ _ hp ↦ absurd (hphase.symm.trans hp) (by simp)
    · exact h
  | kick =>
    simp only [System.write]
    split
    · next prevDurable hphase =>
      have hcommitted := hok.phase
      rw [hphase] at hcommitted
      have hset := inv_setWriter h hget (hok.withPhase (.kicked prevDurable) hcommitted)
        fun _ _ hp ↦ absurd (hphase.symm.trans hp) (by simp)
      split
      · exact inv_takeGate hset fun w hw ↦ absurd hw (by simp)
      · exact hset
    · exact h
  | insert =>
    simp only [System.write]
    split
    · next prevDurable hphase =>
      have hkicked := hok.phase
      rw [hphase] at hkicked
      have hset : (s.setWriter w { writer with phase := .streaming, lastDbSave := s.clock }).Inv :=
        inv_setWriter h hget ⟨hok.flushed_le, hok.durable_le, hok.pending, trivial⟩
          fun _ _ hp ↦ absurd (hphase.symm.trans hp) (by simp)
      split
      · next hne => exact inv_record hset (hkicked hne) _
      · exact hset
    · exact h
  | endStream =>
    simp only [System.write]
    split
    · next hphase =>
      exact inv_setWriter h hget (hok.flushAll (Or.inr rfl))
        fun _ _ hp ↦ absurd (hphase.symm.trans hp) (by simp)
    · exact h
  | finalSnapshot =>
    simp only [System.write]
    split
    · next hphase =>
      have hflushed := hok.phase
      rw [hphase] at hflushed
      have hwatch := watched_of_separates h (ge_of_eq hflushed) (hclock (Or.inr rfl))
      exact inv_setWriter h hget (hok.withPhase (.covering s.clock) hwatch)
        fun _ _ hp ↦ absurd (hphase.symm.trans hp) (by simp)
    · exact h
  | cover =>
    simp only [System.write]
    split
    · next snapT hphase =>
      have hwatch := hok.phase
      rw [hphase] at hwatch
      have hnot : ∀ (t : Nat) (phase : WriterPhase), writer.phase = .owning t →
          phase = .owning t := fun _ _ hp ↦ absurd (hphase.symm.trans hp) (by simp)
      split
      · next hcovers =>
        have hdurable := durable_of_covers h hwatch hcovers
        exact inv_setWriter h hget (hok.withPhase .covered hdurable)
          fun _ _ hp ↦ hnot _ _ hp
      · split
        · exact h
        · have hset := inv_setWriter h hget (hok.withPhase (.owning snapT) hwatch)
            fun _ _ hp ↦ hnot _ _ hp
          apply inv_takeGate hset
          intro w' hw'
          obtain rfl := Option.some.inj hw'
          exact ⟨_, snapT, by rw [System.setWriter, SortedMap.get?_insert, if_pos rfl], rfl⟩
    · exact h
  | complete =>
    simp only [System.write]
    split
    · next hphase =>
      have hdurable := hok.phase
      rw [hphase] at hdurable
      have hset := inv_setWriter h hget (hok.withPhase .finished trivial)
        fun _ _ hp ↦ absurd (hphase.symm.trans hp) (by simp)
      exact inv_record hset hdurable _
    · exact h

/-! ## Steps of the clock and of a sync -/

/-- Every writer stays in order when no watched snapshot is lost. -/
theorem writers_transport {s s' : System} (h : s.Inv) (hwriters : s'.writers = s.writers)
    (hclock : s.clock ≤ s'.clock)
    (hcompleted : ∀ w off t, (∀ writer, s.writers.get? w = some writer →
        Watched s w writer.flushed off t → ∀ c ∈ s'.completed, t ≤ c.start →
          c.captured.Covers w off))
    (hflight : ∀ w off t, (∀ writer, s.writers.get? w = some writer →
        Watched s w writer.flushed off t → ∀ f start captured, s'.inFlight = some f →
          f.start = some start → f.captured = some captured → t ≤ start →
            captured.Covers w off))
    (hdurable : ∀ w off, s.Durable w off → s'.Durable w off) :
    ∀ w writer, s'.writers.get? w = some writer → WriterOk s' w writer := by
  intro w writer hget
  rw [hwriters] at hget
  refine (h.writers w writer hget).transport (fun off t hwatch ↦ ?_) (hdurable w)
  exact ⟨le_trans hwatch.read hclock, hwatch.flushed_ge, hcompleted w off t writer hget hwatch,
    hflight w off t writer hget hwatch⟩

private theorem inv_tick {s : System} (h : s.Inv) (n : Nat) :
    System.Inv { s with clock := s.clock + n } := by
  refine ⟨h.exclusive, h.last_mem, fun c hc ↦ ?_, fun f hf ↦ ?_, ?_, h.recorded⟩
  · exact le_trans (h.completed_le c hc) (Nat.le_add_right _ _)
  · obtain ⟨h₁, h₂, h₃⟩ := h.flight f hf
    exact ⟨h₁, fun start hstart ↦
      ⟨le_trans (h₂ start hstart).1 (Nat.le_add_right _ _), (h₂ start hstart).2⟩, h₃⟩
  · exact writers_transport h rfl (Nat.le_add_right _ _)
      (fun _ _ _ _ _ hwatch ↦ hwatch.completed) (fun _ _ _ _ _ hwatch ↦ hwatch.inFlight)
      fun _ _ hd ↦ hd

private theorem inv_spawn {s : System} (h : s.Inv) {w : Nat} (hfree : s.writers.get? w = none)
    {writer : Writer} (hok : WriterOk s w writer) : (s.setWriter w writer).Inv := by
  refine ⟨h.exclusive, h.last_mem, h.completed_le, fun f hf ↦ ?_, fun w' wr hwr ↦ ?_,
    h.recorded⟩
  · obtain ⟨h₁, h₂, h₃⟩ := h.flight f hf
    refine ⟨h₁, h₂, fun w' hw' ↦ ?_⟩
    obtain ⟨wr, snapT, hwr, hphase, hstart⟩ := h₃ w' hw'
    refine ⟨wr, snapT, ?_, hphase, hstart⟩
    rw [System.setWriter, SortedMap.get?_insert, if_neg, hwr]
    rintro rfl
    rw [hfree] at hwr
    exact absurd hwr (by simp)
  · change (s.writers.insert w writer).get? w' = some wr at hwr
    rw [SortedMap.get?_insert] at hwr
    have hcopy : ∀ wr, WriterOk s w' wr → WriterOk (s.setWriter w writer) w' wr := fun wr hwr ↦
      hwr.transport (fun _ _ hwatch ↦ ⟨hwatch.read, hwatch.flushed_ge, hwatch.completed,
        hwatch.inFlight⟩) fun _ hd ↦ hd
    split at hwr
    · next hw => exact hcopy _ (hw ▸ Option.some.inj hwr ▸ hok)
    · exact hcopy wr (h.writers w' wr hwr)

private theorem inv_fsyncStart {s : System} (h : s.Inv) : (s.step .fsyncStart).Inv := by
  simp only [System.step]
  split
  · next owner captured hflight =>
    obtain ⟨hnone, -, howner⟩ := h.flight _ hflight
    have hcaptured : captured = none := hnone rfl
    subst hcaptured
    refine ⟨?_, h.last_mem, h.completed_le, fun f hf ↦ ?_, ?_, h.recorded⟩
    · rw [h.exclusive, hflight]
      rfl
    · obtain rfl := Option.some.inj hf
      refine ⟨fun hstart ↦ absurd hstart (by simp), fun start hstart ↦ ?_, fun w hw ↦ ?_⟩
      · obtain rfl := Option.some.inj hstart
        refine ⟨le_refl _, fun l hl ↦ ?_⟩
        obtain ⟨c, hc, rfl⟩ := h.last_mem l hl
        exact h.completed_le c hc
      · obtain ⟨writer, snapT, hget, hphase, -⟩ := howner w hw
        refine ⟨writer, snapT, hget, hphase, fun start hstart ↦ ?_⟩
        obtain rfl := Option.some.inj hstart
        have hwatch := (h.writers w writer hget).phase
        rw [hphase] at hwatch
        exact hwatch.read
    · refine writers_transport h rfl (le_refl _) (fun _ _ _ _ _ hwatch ↦ hwatch.completed) ?_
        fun _ _ hd ↦ hd
      intro w off t writer hget hwatch f start captured hf hstart hcap _
      obtain rfl := Option.some.inj hf
      exact absurd hcap (by simp)
  · exact h

private theorem inv_fsyncBegin {s : System} (h : s.Inv) : (s.step .fsyncBegin).Inv := by
  simp only [System.step]
  split
  · next owner start hflight =>
    obtain ⟨-, hstart, howner⟩ := h.flight _ hflight
    refine ⟨?_, h.last_mem, h.completed_le, fun f hf ↦ ?_, ?_, h.recorded⟩
    · rw [h.exclusive, hflight]
      rfl
    · obtain rfl := Option.some.inj hf
      exact ⟨fun hnone ↦ absurd hnone (by simp), hstart, howner⟩
    · refine writers_transport h rfl (le_refl _) (fun _ _ _ _ _ hwatch ↦ hwatch.completed) ?_
        fun _ _ hd ↦ hd
      intro w off t writer hget hwatch f start captured hf hstart hcap _
      -- The sync captures what every writer has flushed by now.
      obtain rfl := Option.some.inj hf
      obtain rfl := Option.some.inj hcap
      refine ⟨writer.flushed, ?_, hwatch.flushed_ge⟩
      rw [System.flushedBytes, SortedMap.get?_mapValues, hget]
      rfl
  · exact h

private theorem durable_cons {s s' : System} {c : CompletedSync}
    (h : s'.completed = c :: s.completed) {w : Nat} {off : Int} (hd : s.Durable w off) :
    s'.Durable w off := by
  obtain ⟨d, hmem, hcov⟩ := hd
  exact ⟨d, h ▸ List.mem_cons_of_mem _ hmem, hcov⟩

/-- The sync in flight returns; its owner has not been released yet. -/
theorem inv_settle {s : System} (h : s.Inv) {f : Fsync} {start : Nat}
    {captured : Captured} (hflight : s.inFlight = some f) (hstart : f.start = some start)
    (hcaptured : f.captured = some captured) :
    System.Inv { s with
      inFlight := none
      gate := { s.gate with syncing := false, lastCompletedStart := some start }
      completed := ⟨start, captured⟩ :: s.completed } := by
  obtain ⟨-, hpast, -⟩ := h.flight f hflight
  have hd : ∀ w off, s.Durable w off → System.Durable { s with
      inFlight := none
      gate := { s.gate with syncing := false, lastCompletedStart := some start }
      completed := ⟨start, captured⟩ :: s.completed } w off := fun w off hd ↦ durable_cons rfl hd
  refine ⟨rfl, fun l hl ↦ ?_, fun c hc ↦ ?_, fun f hf ↦ absurd hf (by simp), ?_,
    fun r hr ↦ hd _ _ (h.recorded r hr)⟩
  · exact ⟨_, List.mem_cons_self, Option.some.inj hl⟩
  · rcases List.mem_cons.mp hc with rfl | hc
    · exact (hpast start hstart).1
    · exact h.completed_le c hc
  · refine writers_transport h rfl (le_refl _) ?_ ?_ hd
    · intro w off t writer hget hwatch c hc hle
      rcases List.mem_cons.mp hc with rfl | hc
      · exact hwatch.inFlight f start captured hflight hstart hcaptured hle
      · exact hwatch.completed c hc hle
    · intro w off t writer hget hwatch f start captured hf
      exact absurd hf (by simp)

private theorem inv_settleError {s : System} (h : s.Inv) (failure : Option String) :
    System.Inv { s with
      inFlight := none
      gate := { s.gate with syncing := false, failure := failure } } := by
  refine ⟨rfl, h.last_mem, h.completed_le, fun f hf ↦ absurd hf (by simp), ?_, h.recorded⟩
  exact writers_transport h rfl (le_refl _) (fun _ _ _ _ _ hwatch ↦ hwatch.completed)
    (fun _ _ _ _ _ _ _ _ _ hf ↦ absurd hf (by simp)) fun _ _ hd ↦ hd

private theorem inv_fsyncComplete {s : System} (h : s.Inv) (error : Option String) :
    (s.step (.fsyncComplete error)).Inv := by
  simp only [System.step]
  split
  · next f hflight =>
    split
    · next start captured hstart hcaptured =>
      unfold System.completeSync
      dsimp only
      have howner := (h.flight f hflight).2.2
      cases hf : f.owner with
      | none =>
        cases error with
        | none => exact inv_settle h hflight hstart hcaptured
        | some message => exact inv_settleError h _
      | some w =>
        obtain ⟨writer, snapT, hget, hphase, hsnap⟩ := howner w hf
        have hwatch := (h.writers w writer hget).phase
        rw [hphase] at hwatch
        dsimp only
        rw [SortedMap.modify_of_get? _ _ hget]
        cases error with
        | none =>
          have hsettled := inv_settle h hflight hstart hcaptured
          refine inv_setWriter hsettled hget ?_ fun hnone ↦ absurd hnone (by simp)
          apply (hsettled.writers w writer hget).withPhase .covered
          -- The owner read its snapshot before the sync started, so the sync has its bytes.
          exact ⟨⟨start, captured⟩, List.mem_cons_self,
            hwatch.inFlight f start captured hflight hstart hcaptured (hsnap start hstart)⟩
        | some message =>
          have hsettled := inv_settleError h s.gate.failure
          refine inv_setWriter hsettled hget ?_ fun hnone ↦ absurd hnone (by simp)
          exact (hsettled.writers w writer hget).withPhase .finished trivial
    · exact h
  · exact h

/-- A step whose clock readings are separated keeps the invariant. -/
theorem inv_step (s : System) (a : Action) (h : s.Inv) (hclock : a.Separated s) :
    (s.step a).Inv := by
  cases a with
  | tick n => exact inv_tick h n
  | spawn w segIndex downloaded =>
    simp only [System.step]
    split
    · exact h
    · next hfree =>
      exact inv_spawn h hfree
        ⟨le_refl _, le_refl _, fun _ _ hp ↦ absurd hp (by simp), trivial⟩
  | fsyncStart => exact inv_fsyncStart h
  | fsyncBegin => exact inv_fsyncBegin h
  | fsyncComplete error => exact inv_fsyncComplete h error
  | writer w a =>
    simp only [System.step]
    split
    · next writer hget =>
      apply inv_write h hget
      rintro (rfl | rfl)
      · exact hclock w writer (Or.inl rfl) hget
      · exact hclock w writer (Or.inr rfl) hget
    · exact h

/-- The initial system is in order. -/
theorem inv_new : System.new.Inv where
  exclusive := rfl
  last_mem l hl := absurd hl (by simp [System.new, GateState.new])
  completed_le c hc := absurd hc List.not_mem_nil
  flight f hf := absurd hf (by simp [System.new])
  writers w writer hget := absurd hget (by simp [System.new])
  recorded r hr := absurd hr List.not_mem_nil

/-! ## Watermarks and the gate never move back -/

/-- The last completed start and every watermark of `s` are no later than those of `s'`. -/
structure Forward (s s' : System) : Prop where
  /-- The last completed start. -/
  last : ∀ l, s.gate.lastCompletedStart = some l →
    ∃ l', s'.gate.lastCompletedStart = some l' ∧ l ≤ l'
  /-- The watermarks. -/
  durable : ∀ w writer, s.writers.get? w = some writer →
    ∃ writer', s'.writers.get? w = some writer' ∧ writer.durableOffset ≤ writer'.durableOffset

private theorem Forward.refl (s : System) : Forward s s where
  last l hl := ⟨l, hl, le_refl _⟩
  durable _ writer hget := ⟨writer, hget, le_refl _⟩

private theorem Forward.trans {s₁ s₂ s₃ : System} (h₁₂ : Forward s₁ s₂) (h₂₃ : Forward s₂ s₃) :
    Forward s₁ s₃ where
  last l hl := by
    obtain ⟨l₂, hl₂, hle₂⟩ := h₁₂.last l hl
    obtain ⟨l₃, hl₃, hle₃⟩ := h₂₃.last l₂ hl₂
    exact ⟨l₃, hl₃, le_trans hle₂ hle₃⟩
  durable w writer hget := by
    obtain ⟨wr₂, hget₂, hle₂⟩ := h₁₂.durable w writer hget
    obtain ⟨wr₃, hget₃, hle₃⟩ := h₂₃.durable w wr₂ hget₂
    exact ⟨wr₃, hget₃, le_trans hle₂ hle₃⟩

/-- A step that keeps the gate's start and replaces one writer by one with no lower
watermark. -/
theorem forward_of_insert {s s' : System} {w : Nat} {writer writer' : Writer}
    (hlast : s'.gate.lastCompletedStart = s.gate.lastCompletedStart)
    (hwriters : s'.writers = s.writers.insert w writer')
    (hget : s.writers.get? w = some writer)
    (hle : writer.durableOffset ≤ writer'.durableOffset) : Forward s s' where
  last l hl := ⟨l, hlast ▸ hl, le_refl _⟩
  durable w' wr hwr := by
    rw [hwriters, SortedMap.get?_insert]
    split
    · next hw =>
      rw [hw, hget] at hwr
      exact ⟨writer', rfl, Option.some.inj hwr ▸ hle⟩
    · exact ⟨wr, hwr, le_refl _⟩

private theorem forward_write {s : System} (h : s.Inv) {w : Nat} {writer : Writer}
    (hget : s.writers.get? w = some writer) (a : WriterAction) :
    Forward s (s.write w writer a) := by
  have hok := h.writers w writer hget
  cases a with
  | commit =>
    simp only [System.write]
    split
    · refine forward_of_insert rfl rfl hget ?_
      unfold Writer.commit
      split
      · next off t hpending =>
        have hle := (hok.pending off t hpending).1
        split
        · exact hle
        · exact le_refl _
      · exact le_refl _
    · exact Forward.refl s
  | kick =>
    simp only [System.write]
    split
    · split <;> exact forward_of_insert rfl rfl hget (le_refl _)
    · exact Forward.refl s
  | insert =>
    simp only [System.write]
    split
    · split <;> exact forward_of_insert rfl rfl hget (le_refl _)
    · exact Forward.refl s
  | cover =>
    simp only [System.write]
    split
    · split
      · exact forward_of_insert rfl rfl hget (le_refl _)
      · split
        · exact Forward.refl s
        · exact forward_of_insert rfl rfl hget (le_refl _)
    · exact Forward.refl s
  | beginPass =>
    simp only [System.write]
    split
    · split <;> exact forward_of_insert rfl rfl hget (le_refl _)
    · exact Forward.refl s
  | _ =>
    simp only [System.write]
    split
    · exact forward_of_insert rfl rfl hget (le_refl _)
    · exact Forward.refl s

private theorem forward_fsyncComplete {s : System} (h : s.Inv) (error : Option String) :
    Forward s (s.step (.fsyncComplete error)) := by
  simp only [System.step]
  split
  · next f hflight =>
    split
    · next start captured hstart hcaptured =>
      have hpast := ((h.flight f hflight).2.1 start hstart).2
      have howner := (h.flight f hflight).2.2
      unfold System.completeSync
      dsimp only
      cases hf : f.owner with
      | none =>
        cases error with
        | none => exact ⟨fun l hl ↦ ⟨start, rfl, hpast l hl⟩, fun w wr hwr ↦ ⟨wr, hwr, le_refl _⟩⟩
        | some message => exact ⟨fun l hl ↦ ⟨l, hl, le_refl _⟩, fun w wr hwr ↦ ⟨wr, hwr, le_refl _⟩⟩
      | some owner =>
        obtain ⟨writer, snapT, hget, -, -⟩ := howner owner hf
        dsimp only
        rw [SortedMap.modify_of_get? _ _ hget]
        have hset : ∀ wr, wr.durableOffset = writer.durableOffset → ∀ w' old,
            s.writers.get? w' = some old →
              ∃ new, (s.writers.insert owner wr).get? w' = some new ∧
                old.durableOffset ≤ new.durableOffset := by
          intro wr hwr w' old hold
          rw [SortedMap.get?_insert]
          split
          · next hw =>
            rw [hw, hget] at hold
            exact ⟨wr, rfl, by rw [hwr, Option.some.inj hold]⟩
          · exact ⟨old, hold, le_refl _⟩
        cases error with
        | none => exact ⟨fun l hl ↦ ⟨start, rfl, hpast l hl⟩, hset _ rfl⟩
        | some message => exact ⟨fun l hl ↦ ⟨l, hl, le_refl _⟩, hset _ rfl⟩
    · exact Forward.refl s
  · exact Forward.refl s

/-- No step moves the gate or a watermark back. -/
theorem forward_step (s : System) (a : Action) (h : s.Inv) : Forward s (s.step a) := by
  cases a with
  | tick n => exact ⟨fun l hl ↦ ⟨l, hl, le_refl _⟩, fun w wr hwr ↦ ⟨wr, hwr, le_refl _⟩⟩
  | spawn _ segIndex downloaded =>
    simp only [System.step]
    split
    · exact Forward.refl s
    · next hfree =>
      refine ⟨fun l hl ↦ ⟨l, hl, le_refl _⟩, fun w' wr hwr ↦ ⟨wr, ?_, le_refl _⟩⟩
      rw [System.setWriter, SortedMap.get?_insert, if_neg, hwr]
      rintro rfl
      rw [hfree] at hwr
      exact absurd hwr (by simp)
  | fsyncStart =>
    simp only [System.step]
    split
    · exact ⟨fun l hl ↦ ⟨l, hl, le_refl _⟩, fun w wr hwr ↦ ⟨wr, hwr, le_refl _⟩⟩
    · exact Forward.refl s
  | fsyncBegin =>
    simp only [System.step]
    split
    · exact ⟨fun l hl ↦ ⟨l, hl, le_refl _⟩, fun w wr hwr ↦ ⟨wr, hwr, le_refl _⟩⟩
    · exact Forward.refl s
  | fsyncComplete error => exact forward_fsyncComplete h error
  | writer w a =>
    simp only [System.step]
    split
    · next writer hget => exact forward_write h hget a
    · exact Forward.refl s

/-! ## Runs -/

/-- In every run whose clock separates each snapshot from the syncs that began before its
flush, every recorded offset is durable, the last completed start never moves back and no
watermark decreases. -/
theorem recorded_durable (actions : List Action)
    (hclock : EveryStep System.step (fun s a ↦ a.Separated s) System.new actions) :
    (∀ r ∈ (run System.step System.new actions).recorded,
      (run System.step System.new actions).Durable r.1 r.2) ∧
    ∀ m n, m ≤ n → Forward (run System.step System.new (actions.take m))
      (run System.step System.new (actions.take n)) := by
  refine ⟨fun r hr ↦ ?_, fun m n hmn ↦ ?_⟩
  · exact (run_invariant inv_step inv_new hclock).recorded r hr
  · exact run_related_take Forward.refl Forward.trans inv_step
      (fun s a h _ ↦ forward_step s a h) inv_new hclock hmn

/-- The clock reads later than the start of every sync. -/
def System.laterThanSyncs (s : System) : Bool :=
  s.completed.all (fun c ↦ c.start < s.clock) &&
    ((s.inFlight.bind Fsync.start).all fun start ↦ start < s.clock)

/-- Any step is separated while the clock reads later than every sync's start. -/
theorem separated_of_later {s : System} (h : s.laterThanSyncs = true) (a : Action) :
    a.Separated s := by
  obtain ⟨hcompleted, hflight⟩ := Bool.and_eq_true_iff.mp h
  intro w writer _ _
  constructor
  · intro c hc heq
    have hlt := of_decide_eq_true (List.all_eq_true.mp hcompleted c hc)
    omega
  · intro f hf hstart
    rw [hf, Option.bind_some, hstart] at hflight
    have hlt : s.clock < s.clock := of_decide_eq_true hflight
    omega

/-- A step that takes no snapshot is separated. -/
theorem separated_of_other {s : System} {a : Action}
    (h : ∀ w, a ≠ .writer w .snapshot ∧ a ≠ .writer w .finalSnapshot) : a.Separated s := by
  intro w writer ha _
  rcases ha with ha | ha
  · exact absurd ha (h w).1
  · exact absurd ha (h w).2

/-- One writer of one segment whose first snapshot is committed by the second pass. -/
def committedPassActions : List Action :=
  [.spawn 0 7 0, .writer 0 (.write 100), .tick (3 * 10 ^ 9), .writer 0 .beginPass,
    .writer 0 .snapshot, .writer 0 .commit, .writer 0 .kick, .writer 0 .insert, .tick 1,
    .fsyncStart, .fsyncBegin, .fsyncComplete none, .writer 0 (.write 50), .tick (3 * 10 ^ 9),
    .writer 0 .beginPass, .writer 0 .snapshot, .writer 0 .commit, .writer 0 .kick,
    .writer 0 .insert]

/-- The first snapshot of 100 bytes is handed over and durable. -/
theorem recorded_durable_committed_pass :
    (run System.step System.new committedPassActions).recorded = [(0, 100)] ∧
      (run System.step System.new committedPassActions).Durable 0 100 := by
  have hlater : ∀ {s : System} {a : Action}, s.laterThanSyncs = true → a.Separated s :=
    fun h ↦ separated_of_later h _
  have hother : ∀ {s : System} {a : Action},
      (∀ w, a ≠ .writer w .snapshot ∧ a ≠ .writer w .finalSnapshot) → a.Separated s :=
    separated_of_other
  refine ⟨by decide, (recorded_durable committedPassActions ?_).1 (0, 100) (by decide)⟩
  exact ⟨hlater rfl, hlater rfl, hlater rfl, hlater rfl, hlater rfl, hlater rfl, hlater rfl,
    hlater rfl, hlater rfl, hlater rfl, hother (by simp), hother (by simp), hother (by simp),
    hother (by simp), hlater rfl, hlater rfl, hlater rfl, hlater rfl, hlater rfl, trivial⟩

/-- A background sync in the same clock tick as a flush that it does not include. -/
def tiedClockActions : List Action :=
  [.spawn 0 7 0, .spawn 1 8 0, .writer 0 (.write 100), .tick (3 * 10 ^ 9), .writer 1 .beginPass,
    .writer 1 .snapshot, .writer 1 .commit, .writer 1 .kick, .fsyncStart, .fsyncBegin,
    .writer 0 .endStream, .writer 0 .finalSnapshot, .fsyncComplete none, .writer 0 .cover,
    .writer 0 .complete]

/-- Writer 0 records 100 bytes although the only completed sync began before they were
flushed. -/
theorem recorded_not_durable_on_tie :
    (0, 100) ∈ (run System.step System.new tiedClockActions).recorded ∧
      ¬ (run System.step System.new tiedClockActions).Durable 0 100 := by
  refine ⟨by decide, ?_⟩
  rintro ⟨c, hc, n, hn, hle⟩
  have hcompleted : (run System.step System.new tiedClockActions).completed.map
      (fun c ↦ c.captured.get? 0) = [some 0] := by decide
  have hmem := hcompleted ▸ List.mem_map_of_mem hc
  rw [List.mem_singleton, hn] at hmem
  have hzero : n = 0 := Option.some.inj hmem
  omega

end Engine.SyncGate
