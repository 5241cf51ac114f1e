import FluxDown.Engine.SeedingConservation

/-!
# What the seeding manager guarantees

Library `Engine`. The seconds of each stint, the facts about single steps and the whole
statement over runs: whatever is done, a task is registered once and a reconciliation fills the
cap; in a run whose steps are in turn and accounted for, slots are given in the order of
registration and bytes and seconds are conserved.
-/

namespace Engine.SeedingSystem

open Base SeedingManager

/-- Bases are the seconds of the finished stints. -/
structure Timed (s : SeedingSystem) : Prop where
  active : ∀ row ∈ s.manager.active, -2 ^ 63 ≤ s.ledger.stinted row.1 ∧
    row.2.seedTimeBaseSecs = clampI64 (s.ledger.stinted row.1)
  queued : ∀ row ∈ s.manager.queued, -2 ^ 63 ≤ s.ledger.stinted row.1 ∧
    row.2.seedTimeBaseSecs = clampI64 (s.ledger.stinted row.1)

private theorem clampI64_add {n secs : Int} (hn : -2 ^ 63 ≤ n) (hsecs : 0 ≤ secs) :
    clampI64 (clampI64 n + secs) = clampI64 (n + secs) := by
  unfold clampI64
  omega

private theorem stintSecs_nonneg (entry : SeedingEntry) (now : Nat) : 0 ≤ entry.stintSecs now :=
  Int.natCast_nonneg _

/-- The seeding time of an active task: its finished stints and the current one. -/
theorem Timed.effective {s : SeedingSystem} (h : s.Timed) {row : String × SeedingEntry}
    (hrow : row ∈ s.manager.active) (now : Nat) :
    row.2.effectiveSeedTimeSecs now =
      clampI64 (s.ledger.stinted row.1 + row.2.stintSecs now) := by
  obtain ⟨hlow, hbase⟩ := h.active row hrow
  rw [SeedingEntry.effectiveSeedTimeSecs, saturatingAdd, hbase]
  exact clampI64_add hlow (stintSecs_nonneg row.2 now)

section Ledger

private theorem noteStint_stinted {active : List (String × SeedingEntry)}
    {taskId : String} {entry : SeedingEntry}
    (hrow : lastRow? Prod.fst taskId active = some (taskId, entry)) (l : SeedingLedger)
    (now : Nat) :
    (l.noteStint active now taskId).stinted taskId =
      l.stinted taskId + entry.stintSecs now := by
  rw [SeedingLedger.noteStint, hrow]
  exact Function.update_self ..

private theorem noteStint_of_ne {taskId other : String} (h : other ≠ taskId) (l : SeedingLedger)
    (active : List (String × SeedingEntry)) (now : Nat) :
    (l.noteStint active now taskId).stinted other = l.stinted other := by
  unfold SeedingLedger.noteStint
  split
  · rfl
  · exact Function.update_of_ne h _ _

private theorem foldl_noteStint_of_notMem {taskIds : List String} {other : String}
    (h : other ∉ taskIds) (l : SeedingLedger) (active : List (String × SeedingEntry))
    (now : Nat) :
    (taskIds.foldl (fun ledger taskId ↦ ledger.noteStint active now taskId) l).stinted other =
      l.stinted other := by
  induction taskIds generalizing l with
  | nil => rfl
  | cons taskId taskIds ih =>
    rw [List.mem_cons, not_or] at h
    rw [List.foldl_cons, ih h.2]
    exact noteStint_of_ne h.1 l active now

private theorem foldl_noteStint_of_mem {active rows : List (String × SeedingEntry)}
    (hactive : (active.map Prod.fst).Nodup) (hrows : ∀ row ∈ rows, row ∈ active)
    (honce : (rows.map Prod.fst).Nodup) {row : String × SeedingEntry} (hrow : row ∈ rows)
    (l : SeedingLedger) (now : Nat) :
    ((rows.map Prod.fst).foldl (fun ledger taskId ↦ ledger.noteStint active now taskId)
      l).stinted row.1 = l.stinted row.1 + row.2.stintSecs now := by
  induction rows generalizing l with
  | nil => cases hrow
  | cons first rows ih =>
    obtain ⟨hfirst, hrest⟩ := List.forall_mem_cons.mp hrows
    rw [List.map_cons, List.nodup_cons] at honce
    rw [List.map_cons, List.foldl_cons]
    rcases List.mem_cons.mp hrow with rfl | hrow
    · rw [foldl_noteStint_of_notMem honce.1]
      exact noteStint_stinted ((lastRow?_eq_some_iff hactive).mpr ⟨hfirst, rfl⟩) l now
    · rw [ih hrest honce.2 hrow]
      have hne : row.1 ≠ first.1 := fun heq ↦ honce.1 (heq ▸ List.mem_map_of_mem hrow)
      rw [noteStint_of_ne hne]

end Ledger

section Times

/-- Entries with other stints and counters but the same bases. -/
theorem Timed.of_bases {s s' : SeedingSystem} (h : s.Timed)
    (hactive : s'.manager.active.map (fun row ↦ (row.1, row.2.seedTimeBaseSecs)) =
      s.manager.active.map fun row ↦ (row.1, row.2.seedTimeBaseSecs))
    (hqueued : s'.manager.queued = s.manager.queued)
    (hstinted : s'.ledger.stinted = s.ledger.stinted) : s'.Timed := by
  constructor
  · intro row hrow
    have hview : (row.1, row.2.seedTimeBaseSecs) ∈
        s'.manager.active.map fun row ↦ (row.1, row.2.seedTimeBaseSecs) :=
      List.mem_map_of_mem hrow
    rw [hactive] at hview
    obtain ⟨old, hold, heq⟩ := List.mem_map.mp hview
    obtain ⟨hid, hbase⟩ := Prod.mk.inj heq
    rw [hstinted, ← hid, ← hbase]
    exact h.active old hold
  · rw [hqueued, hstinted]
    exact h.queued

private theorem timed_register {s : SeedingSystem} (h : s.Timed) (taskId : String)
    (uploaded : Int) (counter : Nat) {base : Int} (hlow : -2 ^ 63 ≤ base)
    (hhigh : base ≤ 2 ^ 63 - 1) : (s.register taskId uploaded counter base).Timed := by
  have hbase : base = clampI64 base := by
    unfold clampI64
    omega
  have hself : Function.update s.ledger.stinted taskId base taskId = base :=
    Function.update_self ..
  have hkeep : ∀ {other : String}, other ≠ taskId →
      Function.update s.ledger.stinted taskId base other = s.ledger.stinted other :=
    fun hne ↦ Function.update_of_ne hne _ _
  unfold register
  rcases register_cases s.manager s.now taskId uploaded counter base with
    ⟨-, heq⟩ | ⟨hnot, -, heq⟩ | ⟨hnot, -, heq⟩
  · rw [heq]
    exact h
  all_goals
    rw [heq]
    obtain ⟨hactive, hqueued⟩ := contains_eq_false hnot
    have hold : ∀ row ∈ s.manager.active, -2 ^ 63 ≤
        Function.update s.ledger.stinted taskId base row.1 ∧ row.2.seedTimeBaseSecs =
          clampI64 (Function.update s.ledger.stinted taskId base row.1) := by
      intro row hrow
      have hne : row.1 ≠ taskId := fun heq ↦ hactive (heq ▸ List.mem_map_of_mem hrow)
      rw [hkeep hne]
      exact h.active row hrow
    have hwait : ∀ row ∈ s.manager.queued, -2 ^ 63 ≤
        Function.update s.ledger.stinted taskId base row.1 ∧ row.2.seedTimeBaseSecs =
          clampI64 (Function.update s.ledger.stinted taskId base row.1) := by
      intro row hrow
      have hne : row.1 ≠ taskId := fun heq ↦ hqueued (heq ▸ List.mem_map_of_mem hrow)
      rw [hkeep hne]
      exact h.queued row hrow
  · refine ⟨fun row hrow ↦ ?_, hwait⟩
    rcases List.mem_append.mp hrow with hrow | hrow
    · exact hold row hrow
    · rw [List.mem_singleton] at hrow
      subst hrow
      change -2 ^ 63 ≤ Function.update s.ledger.stinted taskId base taskId ∧
        base = clampI64 (Function.update s.ledger.stinted taskId base taskId)
      rw [hself]
      exact ⟨hlow, hbase⟩
  · refine ⟨hold, fun row hrow ↦ ?_⟩
    rcases List.mem_append.mp hrow with hrow | hrow
    · exact hwait row hrow
    · rw [List.mem_singleton] at hrow
      subst hrow
      change -2 ^ 63 ≤ Function.update s.ledger.stinted taskId base taskId ∧
        base = clampI64 (Function.update s.ledger.stinted taskId base taskId)
      rw [hself]
      exact ⟨hlow, hbase⟩

private theorem timed_reconcile {s : SeedingSystem} (h : s.Timed)
    (hdistinct : s.manager.Distinct) (ticks : List Nat) : (s.step (.reconcile ticks)).Timed := by
  rcases reconcile_step s hdistinct ticks with
    ⟨fresh, seeds, rest, now', hp, -, -, heq⟩ | ⟨parked, hd, -, -, -, heq⟩
  · rw [heq, foldl_noteActivated]
    have hqueued : ∀ row ∈ seeds ++ rest, row ∈ s.manager.queued := fun row hrow ↦ hp.queue ▸ hrow
    constructor
    · intro row hrow
      rcases List.mem_append.mp hrow with hrow | hrow
      · exact h.active row hrow
      · obtain ⟨seed, hseed, hentry⟩ := Promotion.of_seed hp hrow
        have hold := h.queued seed (hqueued seed (List.mem_append_left _ hseed))
        rw [hentry]
        exact hold
    · exact fun row hrow ↦ h.queued row (hqueued row (List.mem_append_right _ hrow))
  · rw [heq]
    obtain ⟨hactive, -, hapart⟩ := List.nodup_append.mp hdistinct
    constructor
    · intro row hrow
      obtain ⟨hin, hout⟩ := List.mem_filter.mp hrow
      have hnot : row.1 ∉ parked.map Prod.fst := by simpa using hout
      rw [foldl_noteStint_of_notMem hnot]
      exact h.active row hin
    · intro row hrow
      rcases List.mem_append.mp hrow with hrow | hrow
      · obtain ⟨entry, hentry, rfl⟩ := List.mem_map.mp hrow
        rw [List.mem_reverse] at hentry
        have hin := hd.active entry hentry
        have hstint := foldl_noteStint_of_mem hactive hd.active hd.once hentry s.ledger s.now
        have hlow := (h.active entry hin).1
        have hsecs := stintSecs_nonneg entry.2 s.now
        change -2 ^ 63 ≤ (List.foldl _ s.ledger _).stinted entry.1 ∧
          entry.2.effectiveSeedTimeSecs s.now =
            clampI64 ((List.foldl _ s.ledger _).stinted entry.1)
        rw [hstint]
        exact ⟨by omega, h.effective hin s.now⟩
      · have hnot : row.1 ∉ parked.map Prod.fst := by
          intro hin
          obtain ⟨entry, hentry, hid⟩ := List.mem_map.mp hin
          exact hapart entry.1 (List.mem_map_of_mem (hd.active entry hentry)) row.1
            (List.mem_map_of_mem hrow) hid
        rw [foldl_noteStint_of_notMem hnot]
        exact h.queued row hrow

private theorem timed_unregister {s : SeedingSystem} (h : s.Timed)
    (hdistinct : s.manager.Distinct) (taskId : String) : (s.unregister taskId).Timed := by
  have hapart := (List.nodup_append.mp hdistinct).2.2
  unfold unregister
  rcases unregister_cases s.manager s.now taskId with
    ⟨entry, hrow, heq⟩ | ⟨hnone, seed, -, heq⟩ | ⟨hnone, heq⟩
  · rw [heq]
    obtain ⟨hmem, -⟩ := lastRow?_eq_some hrow
    constructor
    · intro row hrow
      obtain ⟨hin, hout⟩ := List.mem_filter.mp hrow
      have hne : row.1 ≠ taskId := by simpa using hout
      rw [noteStint_of_ne hne]
      exact h.active row hin
    · intro row hrow
      have hne : row.1 ≠ taskId := fun heq ↦
        hapart taskId (List.mem_map_of_mem hmem) row.1 (List.mem_map_of_mem hrow) heq.symm
      rw [noteStint_of_ne hne]
      exact h.queued row hrow
  all_goals
    have hledger : s.ledger.noteStint s.manager.active s.now taskId = s.ledger := by
      rw [SeedingLedger.noteStint, hnone]
    rw [heq, hledger]
  · exact ⟨h.active, fun row hrow ↦ h.queued row (List.eraseP_subset hrow)⟩
  · exact ⟨h.active, h.queued⟩

private theorem timed_step (s : SeedingSystem) (op : Op) (hdistinct : s.manager.Distinct)
    (h : s.Timed) (hacc : s.Accounted op) : (s.step op).Timed := by
  cases op with
  | register taskId uploaded counter base =>
    exact timed_register h taskId uploaded counter hacc.1 hacc.2
  | reconcile ticks => exact timed_reconcile h hdistinct ticks
  | applyUploadSnapshot taskId counter speed =>
    simp only [step, applyUploadSnapshot, SeedingManager.applyUploadSnapshot]
    rw [if_neg (by omega)]
    cases lastRow? Prod.fst taskId s.manager.active with
    | none => exact ⟨h.active, h.queued⟩
    | some row =>
      refine h.of_bases ?_ rfl rfl
      apply map_modifyRow_of_view
      exact fun _ ↦ rfl
  | markUploadsPersisted persist =>
    simp only [step, markUploadsPersisted]
    split
    · next uploads _ =>
      exact h.of_bases (view_markUploadsPersisted (fun _ _ ↦ rfl) s.manager uploads) rfl rfl
    · exact h
  | writeUploads persist =>
    simp only [step, writeUploads]
    split
    · next uploads _ =>
      have hstinted : ∀ (items : List (String × Int)) (l : SeedingLedger),
          (items.foldl SeedingLedger.noteWritten l).stinted = l.stinted := by
        intro items
        induction items with
        | nil => exact fun l ↦ rfl
        | cons item items ih => exact fun l ↦ ih (l.noteWritten item)
      exact h.of_bases rfl rfl (hstinted uploads s.ledger)
    · exact h
  | failUploads persist =>
    simp only [step, failUploads]
    split
    · exact ⟨h.active, h.queued⟩
    · exact h
  | unregister taskId => exact timed_unregister h hdistinct taskId
  | rehash active =>
    simp only [step]
    split
    · next hperm => exact ⟨fun row hrow ↦ h.active row (hperm.mem_iff.mp hrow), h.queued⟩
    · exact h
  | setCap cap => exact ⟨h.active, h.queued⟩
  | unpersistedUploads rows => exact ⟨h.active, h.queued⟩
  | clock nanos => exact ⟨h.active, h.queued⟩

end Times

section Claims

/-- Tasks that are active. -/
def activeIds (s : SeedingSystem) : List String := s.manager.active.map Prod.fst

/-- What is expected of a state: tasks are registered once, bytes are conserved (those between
their write and their mark are in both counts), and seeding times are the base with the whole
seconds of the stints, as far as 64 bits reach. -/
structure StateExact (s : SeedingSystem) : Prop where
  once : (s.activeIds ++ s.waiting).Nodup
  nonneg : ∀ taskId, 0 ≤ s.unpersisted taskId
  bytes : ∀ taskId, s.ledger.written taskId + s.unpersisted taskId =
    s.ledger.returned taskId + s.inFlight taskId
  activeTime : ∀ row ∈ s.manager.active, row.2.effectiveSeedTimeSecs s.now =
    clampI64 (s.ledger.stinted row.1 + row.2.stintSecs s.now)
  queuedTime : ∀ row ∈ s.manager.queued, row.2.seedTimeBaseSecs =
    clampI64 (s.ledger.stinted row.1)

/-- What is expected of a step: a reconciliation with a cap fills it or empties the queue,
nobody is activated while an earlier registration waits, seeds are promoted in the order of
registration, those demoted come before all others that wait and in the order of their
activation, and a task that leaves reports its seconds. -/
structure StepExact (s : SeedingSystem) (op : Op) : Prop where
  balanced : ∀ ticks, op = .reconcile ticks → 0 < s.manager.cap →
    ((s.step op).manager.active.length ≤ s.manager.cap ∧ (s.step op).waiting = []) ∨
      (s.step op).manager.active.length = s.manager.cap
  fifo : ∀ taskId ∈ (s.step op).activeIds, taskId ∉ s.activeIds →
    ∀ other ∈ (s.step op).waiting,
      (s.step op).ledger.registered taskId < (s.step op).ledger.registered other
  promoted : ∀ ticks, op = .reconcile ticks →
    (s.manager.reconcile s.now ticks).activated.Pairwise fun a b ↦
      s.ledger.registered a < s.ledger.registered b
  requeued : ∀ ticks, op = .reconcile ticks →
    ((s.manager.reconcile s.now ticks).demoted ≠ [] →
      (s.step op).waiting =
        ((s.manager.reconcile s.now ticks).demoted.map Prod.fst).reverse ++ s.waiting) ∧
    ((s.manager.reconcile s.now ticks).demoted.map Prod.fst).reverse.Pairwise fun a b ↦
      s.ledger.activated a < s.ledger.activated b
  reported : ∀ taskId seed, op = .unregister taskId →
    (s.manager.unregister s.now taskId).2 = some seed →
      seed.seedTimeSecs = clampI64 ((s.step op).ledger.stinted taskId)

/-- What is expected of a run: of each of its steps and of its end. -/
def RunExact (s : SeedingSystem) (ops : List Op) : Prop :=
  (∀ n op, ops[n]? = some op → (run step s (ops.take n)).StepExact op) ∧
    (run step s ops).StateExact

/-- The step is in turn and accounted for. -/
def Orderly (s : SeedingSystem) (op : Op) : Prop := s.InTurn op ∧ s.Accounted op

section Decide

variable (s : SeedingSystem)

instance (m : SeedingManager) (row : String × SeedingEntry) : Decidable (Surplus m row) :=
  inferInstanceAs (Decidable (_ ∧ _))

instance (m : SeedingManager) (row : String × SeedingEntry) : Decidable (Alone m row) :=
  inferInstanceAs (Decidable (∀ other ∈ m.active, _ → _))

instance : ∀ op, Decidable (s.InTurn op)
  | .register _ _ _ _ => inferInstanceAs (Decidable (_ ∨ _))
  | .reconcile _ => inferInstanceAs (Decidable (∀ row ∈ s.manager.active, _ → _))
  | .setCap _ | .applyUploadSnapshot _ _ _ | .unpersistedUploads _ | .writeUploads _
  | .failUploads _ | .markUploadsPersisted _ | .unregister _ | .clock _ | .rehash _ =>
    inferInstanceAs (Decidable True)

instance : ∀ op, Decidable (s.Accounted op)
  | .register _ _ _ _ => inferInstanceAs (Decidable (_ ∧ _))
  | .reconcile _ => inferInstanceAs (Decidable (∀ row ∈ s.manager.active, _ → _))
  | .applyUploadSnapshot _ _ _ => inferInstanceAs (Decidable (∀ row ∈ s.manager.active, _ → _))
  | .writeUploads persist =>
    inferInstanceAs (Decidable (∀ p ∈ s.persists[persist]?, _ → ∀ item ∈ p.uploads, _ ≤ _))
  | .unregister taskId => inferInstanceAs (Decidable (s.unpersisted taskId = 0))
  | .setCap _ | .unpersistedUploads _ | .failUploads _ | .markUploadsPersisted _ | .clock _
  | .rehash _ => inferInstanceAs (Decidable True)

instance (op : Op) : Decidable (s.Orderly op) :=
  inferInstanceAs (Decidable (s.InTurn op ∧ s.Accounted op))

end Decide

/-- What a run of orderly steps keeps. -/
structure Sound (s : SeedingSystem) : Prop where
  distinct : s.manager.Distinct
  ordered : s.Ordered
  conserved : s.Conserved
  timed : s.Timed

private theorem sound_new (now : Nat) : (new now).Sound where
  distinct := List.nodup_nil
  ordered := ⟨.nil, by simp [stints, new, SeedingManager.new], by simp [stints, new,
    SeedingManager.new], by simp [stints, new, SeedingManager.new], by simp [stints, new,
    SeedingManager.new], by simp [waiting, new, SeedingManager.new]⟩
  conserved := ⟨fun _ ↦ Int.le_refl 0, fun _ ↦ rfl, fun _ ↦ by
    change (0 : Int) ≤ 2 ^ 63 - 1
    omega, by simp [new]⟩
  timed := ⟨by simp [new, SeedingManager.new], by simp [new, SeedingManager.new]⟩

private theorem sound_step (s : SeedingSystem) (op : Op) (h : s.Sound) (hop : s.Orderly op) :
    (s.step op).Sound where
  distinct := distinct_step s op h.distinct
  ordered := ordered_step s op h.distinct h.ordered hop.1
  conserved := conserved_step s op h.distinct h.conserved hop.2
  timed := timed_step s op h.distinct h.timed hop.2

private theorem Sound.state {s : SeedingSystem} (h : s.Sound) : s.StateExact where
  once := h.distinct
  nonneg := h.conserved.unpersisted_nonneg
  bytes := h.conserved.balance
  activeTime := fun _ hrow ↦ h.timed.effective hrow s.now
  queuedTime := fun row hrow ↦ (h.timed.queued row hrow).2

private theorem mem_activeIds {s : SeedingSystem} {taskId : String} :
    taskId ∈ s.activeIds ↔ ∃ stint, (taskId, stint) ∈ s.stints := by
  constructor
  · intro h
    obtain ⟨row, hrow, rfl⟩ := List.mem_map.mp h
    exact ⟨row.2.stintStarted, mem_stints.mpr ⟨row, hrow, rfl⟩⟩
  · rintro ⟨stint, h⟩
    obtain ⟨row, hrow, heq⟩ := mem_stints.mp h
    exact (Prod.mk.inj heq).1 ▸ List.mem_map_of_mem hrow

private theorem Sound.reported {s : SeedingSystem} (h : s.Sound) {taskId : String}
    {seed : UnregisteredSeed} (hseed : (s.manager.unregister s.now taskId).2 = some seed) :
    seed.seedTimeSecs = clampI64 ((s.unregister taskId).ledger.stinted taskId) := by
  rcases unregister_cases s.manager s.now taskId with
    ⟨entry, hrow, heq⟩ | ⟨hnone, queued, hin, heq⟩ | ⟨-, heq⟩
  · rw [heq] at hseed
    obtain rfl := Option.some.inj hseed
    obtain ⟨hmem, -⟩ := lastRow?_eq_some hrow
    have hstint : (s.ledger.noteStint s.manager.active s.now taskId).stinted taskId =
        s.ledger.stinted taskId + entry.stintSecs s.now := noteStint_stinted hrow s.ledger s.now
    change entry.effectiveSeedTimeSecs s.now =
      clampI64 ((s.ledger.noteStint s.manager.active s.now taskId).stinted taskId)
    rw [hstint]
    exact h.timed.effective hmem s.now
  · rw [heq] at hseed
    obtain rfl := Option.some.inj hseed
    change queued.seedTimeBaseSecs =
      clampI64 ((s.ledger.noteStint s.manager.active s.now taskId).stinted taskId)
    rw [SeedingLedger.noteStint, hnone]
    exact (h.timed.queued _ hin).2
  · rw [heq] at hseed
    cases hseed

/-- An orderly step does what is expected. -/
theorem Sound.step {s : SeedingSystem} (h : s.Sound) {op : Op} (hop : s.Orderly op) :
    s.StepExact op where
  balanced := by
    rintro ticks rfl hcap
    have hbalanced := reconcile_balanced h.distinct s.now ticks hcap
    refine hbalanced.imp (fun hb ↦ ⟨hb.1, ?_⟩) id
    change (s.manager.reconcile s.now ticks).manager.queued.map Prod.fst = []
    rw [hb.2, List.map_nil]
  fifo := by
    intro taskId hactive _ other hother
    obtain ⟨stint, hstint⟩ := mem_activeIds.mp hactive
    exact (ordered_step s op h.distinct h.ordered hop.1).ahead (taskId, stint) hstint other hother
  promoted := by
    rintro ticks rfl
    rcases reconcile_step s h.distinct ticks with
      ⟨fresh, seeds, rest, now', hp, hactivated, -, -⟩ | ⟨parked, -, -, hactivated, -, -⟩
    · have hturns := h.ordered.turns
      rw [waiting, hp.queue, List.map_append] at hturns
      rw [hactivated]
      exact (List.pairwise_append.mp hturns).1
    · rw [hactivated]
      exact .nil
  requeued := by
    rintro ticks rfl
    rcases reconcile_step s h.distinct ticks with
      ⟨fresh, seeds, rest, now', -, -, hdemoted, -⟩ | ⟨parked, hd, hsurplus, -, hdemoted, heq⟩
    · rw [hdemoted]
      exact ⟨fun hne ↦ absurd rfl hne, .nil⟩
    · have hids : (parked.map fun row ↦ (row.1, row.2.effectiveSeedTimeSecs s.now)).map Prod.fst =
          parked.map Prod.fst := by
        rw [List.map_map]
        rfl
      rw [hdemoted, hids]
      constructor
      · intro _
        rw [heq, waiting, waiting, List.map_append, List.map_map, ← List.map_reverse]
        rfl
      · have halone : ∀ row ∈ parked, Alone s.manager row := fun row hrow ↦
          hop.1 row (hd.active row hrow) (hsurplus row hrow)
        exact (Demotion.turns hd h.ordered halone).1.imp fun hab ↦ hab.2
  reported := by
    rintro taskId seed rfl hseed
    exact h.reported hseed

/-- In every run of orderly steps the seeding manager does what is expected, of each step and
of the state it ends in. -/
theorem seeding_exact (now : Nat) {ops : List Op}
    (h : EveryStep SeedingSystem.step Orderly (new now) ops) : (new now).RunExact ops := by
  have hrun : ∀ {ops : List Op}, EveryStep SeedingSystem.step Orderly (new now) ops →
      (run SeedingSystem.step (new now) ops).Sound :=
    fun hops ↦ run_invariant sound_step (sound_new now) hops
  exact ⟨fun n op hop ↦ (hrun (h.take n)).step (h.at hop), (hrun h).state⟩

/-- Three seeders of which one is sampled, persisted and then demoted with another, and come
back. -/
def sampleRun : List Op :=
  [.register "a" 10 5 60, .clock 1500000000, .register "b" 0 0 0, .clock 500000000,
    .setCap 2, .register "c" 0 0 7, .applyUploadSnapshot "b" 100 1,
    .unpersistedUploads ["a", "b"], .writeUploads 0, .applyUploadSnapshot "a" 25 0,
    .markUploadsPersisted 0, .setCap 1, .clock 2000000000, .reconcile [], .setCap 0,
    .reconcile [1, 1], .applyUploadSnapshot "b" 30 0, .clock 3000000000]

/-- An orderly run in which three seeds have counted bytes. -/
theorem seeding_exact_sample :
    EveryStep SeedingSystem.step Orderly (new 0) sampleRun ∧ (new 0).RunExact sampleRun ∧
      (run SeedingSystem.step (new 0) sampleRun).manager.active.map
        (fun row ↦ (row.1, row.2.unpersistedUpload)) = [("a", 20), ("b", 30), ("c", 0)] := by
  have horderly : EveryStep SeedingSystem.step Orderly (new 0) sampleRun := by decide +kernel
  exact ⟨horderly, seeding_exact 0 horderly, by decide +kernel⟩

/-- A slot is free, `b` waits for it and `c` gets it. -/
def jumpRun : List Op :=
  [.setCap 1, .register "a" 0 0 0, .register "b" 0 0 0, .unregister "a", .register "c" 0 0 0]

/-- `b` is demoted with bytes that were never written. -/
def dropRun : List Op :=
  [.register "a" 0 0 0, .clock 1, .register "b" 0 0 0, .applyUploadSnapshot "b" 100 1,
    .setCap 1, .reconcile []]

/-- The bytes of `b` are written while it is demoted and promoted, and then taken off. -/
def negativeRun : List Op :=
  [.register "a" 0 0 0, .clock 1, .register "b" 0 0 0, .applyUploadSnapshot "b" 100 1,
    .unpersistedUploads ["b"], .writeUploads 0, .setCap 1, .reconcile [], .setCap 0,
    .reconcile [], .markUploadsPersisted 0]

/-- `a` and `b` were activated at the same moment and are demoted in the order of the map. -/
def tieRun : List Op :=
  [.register "z" 0 0 0, .clock 1, .register "a" 0 0 0, .register "b" 0 0 0,
    .rehash [("b", ⟨0, 1, 1, 0, 0, 0, 0⟩), ("z", ⟨0, 0, 0, 0, 0, 0, 0⟩),
      ("a", ⟨0, 1, 1, 0, 0, 0, 0⟩)], .setCap 1, .reconcile []]

/-- A late row, a demotion, a negative reading and a tie each make a run inexact. -/
theorem seeding_inexact :
    ¬(new 0).RunExact jumpRun ∧ ¬(new 0).RunExact dropRun ∧ ¬(new 0).RunExact negativeRun ∧
      ¬(new 0).RunExact tieRun := by
  refine ⟨fun h ↦ ?_, fun h ↦ ?_, fun h ↦ ?_, fun h ↦ ?_⟩
  · have hfifo := (h.1 4 _ rfl).fifo "c" (by decide +kernel) (by decide +kernel) "b"
      (by decide +kernel)
    revert hfifo
    decide +kernel
  · have hbytes := h.2.bytes "b"
    revert hbytes
    decide +kernel
  · have hnonneg := h.2.nonneg "b"
    revert hnonneg
    decide +kernel
  · have horder := ((h.1 6 _ rfl).requeued [] rfl).2
    revert horder
    decide +kernel

end Claims

end Engine.SeedingSystem
