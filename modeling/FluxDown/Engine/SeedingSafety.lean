import FluxDown.Base.Run
import FluxDown.Engine.SeedingReconcile

/-!
# Slots and turns of the seeders

Library `Engine`. What a run of the seeding manager keeps: each task is registered once, those
active were registered before those that wait, and stints begin in the order of registration.
The order is kept by the steps that are in turn: a registration that finds the queue empty or
no slot, and a demotion among seeders whose stints began at different moments.
-/

namespace Engine.SeedingSystem

open Base SeedingManager

/-- Active tasks with the beginning of their stints. -/
def stints (s : SeedingSystem) : List (String × Nat) :=
  s.manager.active.map fun row ↦ (row.1, row.2.stintStarted)

/-- Tasks in the queue. -/
def waiting (s : SeedingSystem) : List String := s.manager.queued.map Prod.fst

/-- The row is among those that a reconciliation demotes: fewer active rows have a later stint
than there are rows over the cap. -/
def Surplus (m : SeedingManager) (row : String × SeedingEntry) : Prop :=
  0 < m.cap ∧ (m.active.countP fun other ↦ row.2.stintStarted < other.2.stintStarted) + m.cap <
    m.active.length

/-- No other active row began its stint at the same moment. -/
def Alone (m : SeedingManager) (row : String × SeedingEntry) : Prop :=
  ∀ other ∈ m.active, other.2.stintStarted = row.2.stintStarted → other.1 = row.1

/-- The step respects the turns of those that wait. -/
def InTurn (s : SeedingSystem) : Op → Prop
  | .register taskId _ _ _ =>
    s.manager.contains taskId = true ∨ s.manager.hasFreeSlot = false ∨ s.manager.queued = []
  | .reconcile _ => ∀ row ∈ s.manager.active, Surplus s.manager row → Alone s.manager row
  | _ => True

/-- Those active are ahead of those that wait, and their stints are in order. -/
structure Ordered (s : SeedingSystem) : Prop where
  turns : s.waiting.Pairwise fun a b ↦ s.ledger.registered a < s.ledger.registered b
  ahead : ∀ x ∈ s.stints, ∀ b ∈ s.waiting, s.ledger.registered x.1 < s.ledger.registered b
  order : ∀ x ∈ s.stints, ∀ y ∈ s.stints, s.ledger.registered x.1 < s.ledger.registered y.1 →
    x.2 ≤ y.2 ∧ s.ledger.activated x.1 < s.ledger.activated y.1
  apart : ∀ x ∈ s.stints, ∀ y ∈ s.stints, s.ledger.registered x.1 = s.ledger.registered y.1 →
    x = y
  past : ∀ x ∈ s.stints, x.2 ≤ s.now ∧ s.ledger.registered x.1 < s.ledger.moments ∧
    s.ledger.activated x.1 < s.ledger.moments
  known : ∀ b ∈ s.waiting, s.ledger.registered b < s.ledger.moments

/-- The stints are those of the active seeds. -/
theorem mem_stints {s : SeedingSystem} {x : String × Nat} :
    x ∈ s.stints ↔ ∃ row ∈ s.manager.active, x = (row.1, row.2.stintStarted) := by
  simp [stints, eq_comm]

/-- Fewer tasks in the same order, at a later moment. -/
theorem Ordered.shrink {s s' : SeedingSystem} (h : s.Ordered)
    (hstints : ∀ x ∈ s'.stints, x ∈ s.stints) (hwaiting : s'.waiting.Sublist s.waiting)
    (hregistered : s'.ledger.registered = s.ledger.registered)
    (hactivated : s'.ledger.activated = s.ledger.activated)
    (hmoments : s'.ledger.moments = s.ledger.moments) (hnow : s.now ≤ s'.now) : s'.Ordered := by
  refine ⟨?_, ?_, ?_, ?_, ?_, ?_⟩
  · rw [hregistered]
    exact h.turns.sublist hwaiting
  · rw [hregistered]
    exact fun x hx b hb ↦ h.ahead x (hstints x hx) b (hwaiting.subset hb)
  · rw [hregistered, hactivated]
    exact fun x hx y hy ↦ h.order x (hstints x hx) y (hstints y hy)
  · rw [hregistered]
    exact fun x hx y hy ↦ h.apart x (hstints x hx) y (hstints y hy)
  · rw [hregistered, hactivated, hmoments]
    intro x hx
    obtain ⟨hstint, hrest⟩ := h.past x (hstints x hx)
    exact ⟨Nat.le_trans hstint hnow, hrest⟩
  · rw [hregistered, hmoments]
    exact fun b hb ↦ h.known b (hwaiting.subset hb)

section Manager

variable {m : SeedingManager}

private theorem distinct_active (h : m.Distinct) : (m.active.map Prod.fst).Nodup :=
  (List.nodup_append.mp h).1

/-- A task that is not contained is neither active nor queued. -/
theorem contains_eq_false {taskId : String} (h : m.contains taskId = false) :
    taskId ∉ m.active.map Prod.fst ∧ taskId ∉ m.queued.map Prod.fst := by
  rw [contains, Bool.or_eq_false_iff, Option.isSome_eq_false_iff, Option.isNone_iff_eq_none,
    lastRow?_eq_none_iff, List.any_eq_false] at h
  constructor
  · intro hmem
    obtain ⟨row, hrow, heq⟩ := List.mem_map.mp hmem
    exact h.1 row hrow heq
  · intro hmem
    obtain ⟨row, hrow, heq⟩ := List.mem_map.mp hmem
    exact h.2 row hrow (by simpa using heq)

private theorem lastRow?_of_contains {taskId : String} (h : m.contains taskId = false) :
    lastRow? Prod.fst taskId m.active = none := by
  rw [lastRow?_eq_none_iff]
  exact fun row hrow heq ↦ (contains_eq_false h).1 (heq ▸ List.mem_map_of_mem hrow)

/-- What `register` does to a task that is not there. -/
theorem register_cases (m : SeedingManager) (now : Nat) (taskId : String)
    (uploaded counter base : Int) :
    (m.contains taskId = true ∧
      m.register now taskId uploaded counter base = (m, .alreadyPresent)) ∨
    (m.contains taskId = false ∧ m.hasFreeSlot = true ∧
      m.register now taskId uploaded counter base =
        ({ m with
            active := m.active ++ [(taskId,
              { seedTimeBaseSecs := base, stintStarted := now, lastUploadInstant := now,
                lastUploadedBytes := uploaded, uploadedAtCompletion := uploaded,
                lastSessionUploaded := counter, unpersistedUpload := 0 })] }, .activated)) ∨
    m.contains taskId = false ∧ m.hasFreeSlot = false ∧
      m.register now taskId uploaded counter base =
        ({ m with
            queued := m.queued ++ [(taskId, { uploadedAtCompletion := uploaded
                                              seedTimeBaseSecs := base })] }, .queued) := by
  unfold SeedingManager.register
  cases hin : m.contains taskId with
  | true => exact Or.inl ⟨rfl, rfl⟩
  | false =>
    right
    cases hfree : m.hasFreeSlot with
    | true =>
      left
      refine ⟨rfl, rfl, ?_⟩
      simp only [Bool.false_eq_true, if_false, if_true]
      have hnone := lastRow?_of_contains hin
      have hnew : ∀ entry, upsertRow Prod.fst (taskId, entry) m.active =
          m.active ++ [(taskId, entry)] := fun _ ↦ upsertRow_of_none hnone
      rw [hnew]
    | false => exact Or.inr ⟨rfl, rfl, rfl⟩

/-- What `unregister` does. -/
theorem unregister_cases (m : SeedingManager) (now : Nat) (taskId : String) :
    (∃ entry, lastRow? Prod.fst taskId m.active = some (taskId, entry) ∧
      m.unregister now taskId =
        ({ m with active := m.active.filter fun row ↦ row.1 ∉ [taskId] },
          some { wasActive := true, seedTimeSecs := entry.effectiveSeedTimeSecs now })) ∨
    (lastRow? Prod.fst taskId m.active = none ∧
      ∃ seed, (taskId, seed) ∈ m.queued ∧
        m.unregister now taskId =
          ({ m with queued := m.queued.eraseP (·.1 == taskId) },
            some { wasActive := false, seedTimeSecs := seed.seedTimeBaseSecs })) ∨
    lastRow? Prod.fst taskId m.active = none ∧ m.unregister now taskId = (m, none) := by
  unfold SeedingManager.unregister
  cases hrow : lastRow? Prod.fst taskId m.active with
  | some row =>
    obtain ⟨-, hkey⟩ := lastRow?_eq_some hrow
    subst hkey
    exact Or.inl ⟨row.2, rfl, rfl⟩
  | none =>
    right
    cases hseed : m.queued.find? (·.1 == taskId) with
    | none => exact Or.inr ⟨rfl, rfl⟩
    | some row =>
      have hkey : row.1 = taskId := by simpa using List.find?_some hseed
      subst hkey
      exact Or.inl ⟨rfl, row.2, List.mem_of_find?_eq_some hseed, rfl⟩

private theorem stints_applyUploadSnapshot (m : SeedingManager) (now : Nat) (taskId : String)
    (counter speed : Int) :
    (m.applyUploadSnapshot now taskId counter speed).1.active.map
        (fun row ↦ (row.1, row.2.stintStarted)) =
      m.active.map (fun row ↦ (row.1, row.2.stintStarted)) ∧
    (m.applyUploadSnapshot now taskId counter speed).1.queued = m.queued := by
  unfold SeedingManager.applyUploadSnapshot
  split
  · exact ⟨rfl, rfl⟩
  · split
    · exact ⟨rfl, rfl⟩
    · refine ⟨?_, rfl⟩
      apply map_modifyRow_of_view
      exact fun _ ↦ rfl

/-- Marking shows in the unpersisted bytes only. -/
theorem view_markUploadsPersisted {β : Type} {g : String × SeedingEntry → β}
    (hg : ∀ row n, g (row.1, { row.2 with unpersistedUpload := n }) = g row) (m : SeedingManager)
    (items : List (String × Int)) :
    (m.markUploadsPersisted items).active.map g = m.active.map g := by
  unfold SeedingManager.markUploadsPersisted
  dsimp only
  generalize m.active = rows
  induction items generalizing rows with
  | nil => rfl
  | cons item items ih =>
    rw [List.foldl_cons, ih]
    apply map_modifyRow_of_view
    exact fun row ↦ hg row _

end Manager

section Ledger

/-- Activations touch nothing but the moments of the activated. -/
theorem foldl_noteActivated (taskIds : List String) (l : SeedingLedger) :
    taskIds.foldl SeedingLedger.noteActivated l =
      { l with
        activated := (taskIds.foldl SeedingLedger.noteActivated l).activated
        moments := l.moments + taskIds.length } := by
  induction taskIds generalizing l with
  | nil => rfl
  | cons taskId taskIds ih =>
    rw [List.foldl_cons, ih, List.length_cons]
    simp only [SeedingLedger.noteActivated, Nat.add_right_comm, Nat.add_assoc]

private theorem activated_of_notMem {taskIds : List String} {taskId : String}
    (h : taskId ∉ taskIds) (l : SeedingLedger) :
    (taskIds.foldl SeedingLedger.noteActivated l).activated taskId = l.activated taskId := by
  induction taskIds generalizing l with
  | nil => rfl
  | cons first taskIds ih =>
    rw [List.mem_cons, not_or] at h
    rw [List.foldl_cons, ih h.2]
    exact Function.update_of_ne h.1 _ _

private theorem activated_within {taskIds : List String} (hnodup : taskIds.Nodup)
    (l : SeedingLedger) :
    (∀ taskId ∈ taskIds,
      l.moments ≤ (taskIds.foldl SeedingLedger.noteActivated l).activated taskId ∧
      (taskIds.foldl SeedingLedger.noteActivated l).activated taskId <
        l.moments + taskIds.length) ∧
    taskIds.Pairwise fun a b ↦
      (taskIds.foldl SeedingLedger.noteActivated l).activated a <
        (taskIds.foldl SeedingLedger.noteActivated l).activated b := by
  induction taskIds generalizing l with
  | nil => exact ⟨by simp, .nil⟩
  | cons first taskIds ih =>
    obtain ⟨hnot, hnodup⟩ := List.nodup_cons.mp hnodup
    obtain ⟨hwithin, hpairs⟩ := ih hnodup (l.noteActivated first)
    have hfirst : (taskIds.foldl SeedingLedger.noteActivated (l.noteActivated first)).activated
        first = l.moments := by
      rw [activated_of_notMem hnot]
      exact Function.update_self first l.moments l.activated
    have hmoments : (l.noteActivated first).moments = l.moments + 1 := rfl
    rw [List.foldl_cons, List.length_cons]
    rw [hmoments] at hwithin
    refine ⟨List.forall_mem_cons.mpr ⟨by omega, fun taskId hin ↦ ?_⟩,
      List.pairwise_cons.mpr ⟨fun b hb ↦ ?_, hpairs⟩⟩
    · have := hwithin taskId hin
      omega
    · have := hwithin b hb
      omega

/-- The end of a stint touches nothing but the seconds. -/
theorem noteStint_eq (l : SeedingLedger) (active : List (String × SeedingEntry)) (now : Nat)
    (taskId : String) :
    l.noteStint active now taskId =
      { l with stinted := (l.noteStint active now taskId).stinted } := by
  unfold SeedingLedger.noteStint
  cases lastRow? Prod.fst taskId active <;> rfl

/-- Noting stints changes only the stints. -/
theorem foldl_noteStint (taskIds : List String) (l : SeedingLedger)
    (active : List (String × SeedingEntry)) (now : Nat) :
    taskIds.foldl (fun ledger taskId ↦ ledger.noteStint active now taskId) l =
      { l with
        stinted := (taskIds.foldl (fun ledger taskId ↦ ledger.noteStint active now taskId)
          l).stinted } := by
  induction taskIds generalizing l with
  | nil => rfl
  | cons taskId taskIds ih =>
    rw [List.foldl_cons, ih, noteStint_eq]

end Ledger

section Distinct

private theorem distinct_of_stints {m m' : SeedingManager} (h : m.Distinct)
    (hactive : m'.active.map (fun row ↦ (row.1, row.2.stintStarted)) =
      m.active.map fun row ↦ (row.1, row.2.stintStarted))
    (hqueued : m'.queued = m.queued) : m'.Distinct := by
  have hids := congrArg (List.map Prod.fst) hactive
  rw [List.map_map, List.map_map] at hids
  change m'.active.map Prod.fst = m.active.map Prod.fst at hids
  rw [Distinct, hids, hqueued]
  exact h

private theorem distinct_register {m : SeedingManager} (h : m.Distinct) (now : Nat)
    (taskId : String) (uploaded counter base : Int) :
    (m.register now taskId uploaded counter base).1.Distinct := by
  rcases register_cases m now taskId uploaded counter base with
    ⟨-, heq⟩ | ⟨hnot, -, heq⟩ | ⟨hnot, -, heq⟩
  · rw [heq]
    exact h
  · rw [heq]
    obtain ⟨hactive, hqueued⟩ := contains_eq_false hnot
    have hnodup : (taskId :: (m.active.map Prod.fst ++ m.queued.map Prod.fst)).Nodup :=
      List.nodup_cons.mpr ⟨by rw [List.mem_append, not_or]; exact ⟨hactive, hqueued⟩, h⟩
    rw [Distinct, List.map_append]
    refine (List.Perm.nodup_iff ?_).mpr hnodup
    rw [List.append_assoc]
    exact List.perm_middle
  · rw [heq]
    obtain ⟨hactive, hqueued⟩ := contains_eq_false hnot
    have hnodup : (taskId :: (m.active.map Prod.fst ++ m.queued.map Prod.fst)).Nodup :=
      List.nodup_cons.mpr ⟨by rw [List.mem_append, not_or]; exact ⟨hactive, hqueued⟩, h⟩
    rw [Distinct, List.map_append, ← List.append_assoc]
    exact (List.Perm.nodup_iff (List.perm_append_singleton _ _)).mpr hnodup

/-- The promoted rows have the tasks of their seeds. -/
theorem Promotion.ids {m : SeedingManager} {now now' : Nat}
    {fresh : List (String × SeedingEntry)} {seeds rest : List (String × QueuedSeed)}
    (h : m.Promotion now fresh seeds rest now') : fresh.map Prod.fst = seeds.map Prod.fst := by
  have hentries := h.entries
  clear h
  induction hentries with
  | nil => rfl
  | cons hrow _ ih => rw [List.map_cons, List.map_cons, ih, hrow]

/-- A promoted row comes from one of the seeds. -/
theorem Promotion.of_seed {m : SeedingManager} {now now' : Nat}
    {fresh : List (String × SeedingEntry)} {seeds rest : List (String × QueuedSeed)}
    (h : m.Promotion now fresh seeds rest now') {row : String × SeedingEntry}
    (hrow : row ∈ fresh) :
    ∃ seed ∈ seeds, row = (seed.1, seed.2.activate row.2.stintStarted) := by
  have hentries := h.entries
  clear h
  induction hentries with
  | nil => cases hrow
  | @cons seed first seeds fresh hfirst _ ih =>
    rcases List.mem_cons.mp hrow with rfl | hrow
    · exact ⟨seed, List.mem_cons_self, hfirst⟩
    · obtain ⟨other, hother, heq⟩ := ih hrow
      exact ⟨other, List.mem_cons_of_mem _ hother, heq⟩

private theorem map_fst_toQueued (now : Nat) (rows : List (String × SeedingEntry)) :
    (rows.map (toQueued now)).map Prod.fst = rows.map Prod.fst := by
  rw [List.map_map]
  rfl

private theorem distinct_reconcile {m : SeedingManager} (h : m.Distinct) (now : Nat)
    (ticks : List Nat) : (m.reconcile now ticks).manager.Distinct := by
  rcases reconcile_cases h now ticks with
    ⟨fresh, seeds, rest, now', hp, -, heq⟩ | ⟨parked, hd, -, -, heq⟩
  · rw [heq]
    rw [Distinct, hp.queue, List.map_append] at h
    rw [Distinct, List.map_append, Promotion.ids hp, List.append_assoc]
    exact h
  · rw [heq]
    obtain ⟨hactive, hqueued, hapart⟩ := List.nodup_append.mp h
    have hparked : ∀ k ∈ parked.reverse.map Prod.fst, k ∈ m.active.map Prod.fst := by
      intro k hk
      obtain ⟨row, hrow, rfl⟩ := List.mem_map.mp hk
      exact List.mem_map_of_mem (hd.active row (List.mem_reverse.mp hrow))
    rw [Distinct, List.map_append, map_fst_toQueued]
    refine List.nodup_append.mpr ⟨(List.filter_sublist.map Prod.fst).nodup hactive,
      List.nodup_append.mpr ⟨?_, hqueued, ?_⟩, ?_⟩
    · rw [List.map_reverse]
      exact List.nodup_reverse.mpr hd.once
    · exact fun a ha b hb ↦ hapart a (hparked a ha) b hb
    · intro a ha b hb heq
      subst heq
      obtain ⟨row, hrow, rfl⟩ := List.mem_map.mp ha
      obtain ⟨hin, hout⟩ := List.mem_filter.mp hrow
      rcases List.mem_append.mp hb with hb | hb
      · rw [List.map_reverse, List.mem_reverse] at hb
        simp [hb] at hout
      · exact hapart row.1 (List.mem_map_of_mem hin) row.1 hb rfl

private theorem distinct_unregister {m : SeedingManager} (h : m.Distinct) (now : Nat)
    (taskId : String) : (m.unregister now taskId).1.Distinct := by
  rcases unregister_cases m now taskId with
    ⟨entry, -, heq⟩ | ⟨-, seed, -, heq⟩ | ⟨-, heq⟩
  · rw [heq]
    exact ((List.filter_sublist.map Prod.fst).append (List.Sublist.refl _)).nodup h
  · rw [heq]
    exact ((List.Sublist.refl _).append (List.eraseP_sublist.map Prod.fst)).nodup h
  · rw [heq]
    exact h

/-- A task is registered at most once, whatever is done. -/
theorem distinct_step (s : SeedingSystem) (op : Op) (h : s.manager.Distinct) :
    (s.step op).manager.Distinct := by
  cases op with
  | register taskId uploaded counter base =>
    have hnext := distinct_register h s.now taskId uploaded counter base
    simp only [step, register]
    cases hout : (s.manager.register s.now taskId uploaded counter base).2 with
    | alreadyPresent => exact h
    | queued => exact hnext
    | activated => exact hnext
  | reconcile ticks => exact distinct_reconcile h s.now ticks
  | applyUploadSnapshot taskId counter speed =>
    obtain ⟨hactive, hqueued⟩ :=
      stints_applyUploadSnapshot s.manager s.now taskId counter speed
    exact distinct_of_stints h hactive hqueued
  | markUploadsPersisted persist =>
    simp only [step, markUploadsPersisted]
    split
    · next uploads _ =>
      exact distinct_of_stints h (view_markUploadsPersisted (fun _ _ ↦ rfl) s.manager uploads) rfl
    · exact h
  | writeUploads persist =>
    simp only [step, writeUploads]
    split
    · exact h
    · exact h
  | failUploads persist =>
    simp only [step, failUploads]
    split
    · exact h
    · exact h
  | unregister taskId => exact distinct_unregister h s.now taskId
  | rehash active =>
    simp only [step]
    split
    · next hperm =>
      exact (List.Perm.nodup_iff ((hperm.map Prod.fst).append_right _)).mpr h
    · exact h
  | setCap cap => exact h
  | unpersistedUploads rows => exact h
  | clock nanos => exact h

end Distinct

section Order

private theorem stints_remaining {m : SeedingManager} {parked : List (String × SeedingEntry)}
    {x : String × Nat}
    (hx : x ∈ (m.remaining parked).map fun row ↦ (row.1, row.2.stintStarted)) :
    x ∈ m.active.map fun row ↦ (row.1, row.2.stintStarted) :=
  (List.filter_sublist.map _).subset hx

/-- A parked row is over the cap. -/
theorem Demotion.surplus {m : SeedingManager} {parked : List (String × SeedingEntry)}
    (h : m.Demotion parked) (hdistinct : m.Distinct) (hcap : 0 < m.cap)
    (hover : m.cap < m.active.length) {row : String × SeedingEntry} (hrow : row ∈ parked) :
    Surplus m row := by
  refine ⟨hcap, ?_⟩
  have hlater : (m.active.filter
      fun other ↦ row.2.stintStarted < other.2.stintStarted).map Prod.fst ⊆
        (parked.map Prod.fst).erase row.1 := by
    intro k hk
    obtain ⟨other, hother, rfl⟩ := List.mem_map.mp hk
    obtain ⟨hin, hlt⟩ := List.mem_filter.mp hother
    have hlt := of_decide_eq_true hlt
    have hne : other.1 ≠ row.1 := by
      intro heq
      rw [List.inj_on_of_nodup_map (distinct_active hdistinct) hin (h.active row hrow) heq] at hlt
      exact Nat.lt_irrefl _ hlt
    by_contra hout
    have hstay : other ∈ m.remaining parked := by
      refine List.mem_filter.mpr ⟨hin, ?_⟩
      rw [List.mem_erase_of_ne hne] at hout
      simpa using hout
    exact Nat.not_lt.mpr (h.later row hrow other hstay) hlt
  have hnodup : ((m.active.filter
      fun other ↦ row.2.stintStarted < other.2.stintStarted).map Prod.fst).Nodup :=
    (List.filter_sublist.map Prod.fst).nodup (distinct_active hdistinct)
  have hlen := (hnodup.subperm hlater).length_le
  rw [List.length_map, ← List.countP_eq_length_filter,
    List.length_erase_of_mem (List.mem_map_of_mem hrow), List.length_map] at hlen
  have hpos : 0 < parked.length := List.length_pos_of_mem hrow
  have hcount := h.count
  rw [h.fits, Nat.min_eq_left (Nat.le_of_lt hover)] at hcount
  omega

/-- Where stints are in order, an earlier stint is an earlier registration and activation. -/
theorem Ordered.of_lt {s : SeedingSystem} (h : s.Ordered) {x y : String × Nat}
    (hx : x ∈ s.stints) (hy : y ∈ s.stints) (hlt : x.2 < y.2) :
    s.ledger.registered x.1 < s.ledger.registered y.1 ∧
      s.ledger.activated x.1 < s.ledger.activated y.1 := by
  rcases Nat.lt_trichotomy (s.ledger.registered x.1) (s.ledger.registered y.1) with hr | hr | hr
  · exact ⟨hr, (h.order x hx y hy hr).2⟩
  · rw [h.apart x hx y hy hr] at hlt
    exact absurd hlt (Nat.lt_irrefl _)
  · exact absurd (h.order y hy x hx hr).1 (Nat.not_le.mpr hlt)

/-- Parked rows that are alone with their stints are in the order of registration, and ahead
of nobody who stays. -/
theorem Demotion.turns {s : SeedingSystem} {parked : List (String × SeedingEntry)}
    (hd : s.manager.Demotion parked) (h : s.Ordered)
    (halone : ∀ row ∈ parked, Alone s.manager row) :
    ((parked.map Prod.fst).reverse.Pairwise fun a b ↦
      s.ledger.registered a < s.ledger.registered b ∧
        s.ledger.activated a < s.ledger.activated b) ∧
    ∀ x ∈ s.manager.remaining parked, ∀ row ∈ parked,
      s.ledger.registered x.1 < s.ledger.registered row.1 := by
  have hmem : ∀ row ∈ s.manager.active, (row.1, row.2.stintStarted) ∈ s.stints :=
    fun row hrow ↦ mem_stints.mpr ⟨row, hrow, rfl⟩
  constructor
  · rw [List.pairwise_reverse, List.pairwise_map]
    have hboth := hd.sorted.and (List.pairwise_map.mp hd.once)
    refine hboth.imp_of_mem fun {x y} hx hy hxy ↦ ?_
    have hne : y.2.stintStarted ≠ x.2.stintStarted := fun heq ↦
      hxy.2 (halone x hx y (hd.active y hy) heq).symm
    exact h.of_lt (hmem y (hd.active y hy)) (hmem x (hd.active x hx))
      (Nat.lt_of_le_of_ne hxy.1 hne)
  · intro x hx row hrow
    obtain ⟨hin, hout⟩ := List.mem_filter.mp hx
    have hne : x.2.stintStarted ≠ row.2.stintStarted := by
      intro heq
      rw [halone row hrow x hin heq] at hout
      simp [List.mem_map_of_mem hrow] at hout
    exact (h.of_lt (hmem x hin) (hmem row (hd.active row hrow))
      (Nat.lt_of_le_of_ne (hd.later row hrow x hx) hne)).1

/-- A reconciliation with its ledger. -/
theorem reconcile_step (s : SeedingSystem) (hdistinct : s.manager.Distinct)
    (ticks : List Nat) :
    (∃ fresh seeds rest now', s.manager.Promotion s.now fresh seeds rest now' ∧
      (s.manager.reconcile s.now ticks).activated = seeds.map Prod.fst ∧
      (s.manager.reconcile s.now ticks).demoted = [] ∧
      s.step (.reconcile ticks) =
        { s with
          manager := { s.manager with active := s.manager.active ++ fresh, queued := rest }
          now := now'
          ledger := (seeds.map Prod.fst).foldl SeedingLedger.noteActivated s.ledger }) ∨
    ∃ parked, s.manager.Demotion parked ∧ (∀ row ∈ parked, Surplus s.manager row) ∧
      (s.manager.reconcile s.now ticks).activated = [] ∧
      (s.manager.reconcile s.now ticks).demoted =
        parked.map (fun row ↦ (row.1, row.2.effectiveSeedTimeSecs s.now)) ∧
      s.step (.reconcile ticks) =
        { s with
          manager :=
            { s.manager with
              active := s.manager.remaining parked
              queued := parked.reverse.map (toQueued s.now) ++ s.manager.queued }
          ledger := (parked.map Prod.fst).foldl
            (fun ledger taskId ↦ ledger.noteStint s.manager.active s.now taskId) s.ledger } := by
  rcases reconcile_cases hdistinct s.now ticks with
    ⟨fresh, seeds, rest, now', hp, -, heq⟩ | ⟨parked, hd, hcap, hover, heq⟩
  · exact Or.inl ⟨fresh, seeds, rest, now', hp, by rw [heq], by rw [heq],
      by simp only [step, reconcile, heq, List.map_nil, List.foldl_nil]⟩
  · refine Or.inr ⟨parked, hd, fun row hrow ↦ Demotion.surplus hd hdistinct hcap hover hrow,
      by rw [heq], by rw [heq], ?_⟩
    simp only [step, reconcile, heq, List.foldl_nil, List.map_map]
    rfl

private theorem forall_of_pairwise {α : Type} {R : α → α → Prop} {l : List α}
    (h : l.Pairwise R) {x y : α} (hx : x ∈ l) (hy : y ∈ l) : x = y ∨ R x y ∨ R y x := by
  induction h with
  | nil => cases hx
  | cons hfirst _ ih =>
    rcases List.mem_cons.mp hx with hxa | hxl <;> rcases List.mem_cons.mp hy with hya | hyl
    · exact Or.inl (hxa.trans hya.symm)
    · exact Or.inr (Or.inl (hxa ▸ hfirst y hyl))
    · exact Or.inr (Or.inr (hya ▸ hfirst x hxl))
    · exact ih hxl hyl

private theorem ordered_promotion {s : SeedingSystem} (h : s.Ordered)
    (hdistinct : s.manager.Distinct) {fresh : List (String × SeedingEntry)}
    {seeds rest : List (String × QueuedSeed)} {now' : Nat}
    (hp : s.manager.Promotion s.now fresh seeds rest now') :
    ({ s with
        manager := { s.manager with active := s.manager.active ++ fresh, queued := rest }
        now := now'
        ledger := (seeds.map Prod.fst).foldl SeedingLedger.noteActivated s.ledger } :
      SeedingSystem).Ordered := by
  have hids := Promotion.ids hp
  have hqueued : s.waiting = seeds.map Prod.fst ++ rest.map Prod.fst := by
    rw [waiting, hp.queue, List.map_append]
  obtain ⟨hseeds, hrest, hacross⟩ := List.pairwise_append.mp (hqueued ▸ h.turns)
  have hnodup : (seeds.map Prod.fst).Nodup := by
    have hwait : s.waiting.Nodup := (List.nodup_append.mp hdistinct).2.1
    rw [hqueued] at hwait
    exact (List.nodup_append.mp hwait).1
  obtain ⟨hwithin, hactivated⟩ := activated_within hnodup s.ledger
  have hold : ∀ x ∈ s.stints, ((seeds.map Prod.fst).foldl SeedingLedger.noteActivated
      s.ledger).activated x.1 = s.ledger.activated x.1 := by
    intro x hx
    apply activated_of_notMem
    intro hin
    have hahead := h.ahead x hx x.1 (by rw [hqueued]; exact List.mem_append_left _ hin)
    exact Nat.lt_irrefl _ hahead
  rw [foldl_noteActivated]
  generalize ((seeds.map Prod.fst).foldl SeedingLedger.noteActivated s.ledger).activated =
    activated at hwithin hactivated hold
  -- The new rows come after the old ones, and among themselves in the order of the queue.
  have hfresh : fresh.Pairwise fun x y ↦
      s.ledger.registered x.1 < s.ledger.registered y.1 ∧
        x.2.stintStarted ≤ y.2.stintStarted ∧ activated x.1 < activated y.1 := by
    have hreg := List.pairwise_map.mp (hids ▸ hseeds)
    have hact := List.pairwise_map.mp (hids ▸ hactivated)
    exact (hreg.and (hp.sorted.and hact)).imp fun hxy ↦ hxy
  have hnew : ∀ row ∈ fresh, row.1 ∈ seeds.map Prod.fst :=
    fun row hrow ↦ hids ▸ List.mem_map_of_mem hrow
  have hafter : ∀ x ∈ s.stints, ∀ row ∈ fresh,
      s.ledger.registered x.1 < s.ledger.registered row.1 ∧ x.2 ≤ row.2.stintStarted ∧
        activated x.1 < activated row.1 := by
    intro x hx row hrow
    obtain ⟨hstint, -, hlt⟩ := h.past x hx
    refine ⟨h.ahead x hx row.1 (by rw [hqueued]; exact List.mem_append_left _ (hnew row hrow)),
      Nat.le_trans hstint (hp.within row hrow).1, ?_⟩
    rw [hold x hx]
    exact Nat.lt_of_lt_of_le hlt (hwithin row.1 (hnew row hrow)).1
  have hcases : ∀ x, x ∈ (s.manager.active ++ fresh).map
      (fun row ↦ (row.1, row.2.stintStarted)) →
      x ∈ s.stints ∨ ∃ row ∈ fresh, x = (row.1, row.2.stintStarted) := by
    intro x hx
    rw [List.map_append, List.mem_append] at hx
    exact hx.imp id fun hin ↦ by simpa [eq_comm] using hin
  refine ⟨hrest, ?_, ?_, ?_, ?_, ?_⟩
  · intro x hx b hb
    rcases hcases x hx with hx | ⟨row, hrow, rfl⟩
    · exact h.ahead x hx b (by rw [hqueued]; exact List.mem_append_right _ hb)
    · exact hacross row.1 (hnew row hrow) b hb
  · intro x hx y hy hlt
    rcases hcases x hx with hx | ⟨row, hrow, rfl⟩ <;> rcases hcases y hy with hy | ⟨row', hrow', rfl⟩
    · have horder := h.order x hx y hy hlt
      refine ⟨horder.1, ?_⟩
      change activated x.1 < activated y.1
      rw [hold x hx, hold y hy]
      exact horder.2
    · exact (hafter x hx row' hrow').2
    · exact absurd hlt (Nat.not_lt.mpr (Nat.le_of_lt (hafter y hy row hrow).1))
    · rcases forall_of_pairwise hfresh hrow hrow' with rfl | hxy | hyx
      · exact absurd hlt (Nat.lt_irrefl _)
      · exact hxy.2
      · exact absurd hlt (Nat.not_lt.mpr (Nat.le_of_lt hyx.1))
  · intro x hx y hy heq
    rcases hcases x hx with hx | ⟨row, hrow, rfl⟩ <;> rcases hcases y hy with hy | ⟨row', hrow', rfl⟩
    · exact h.apart x hx y hy heq
    · exact absurd heq (Nat.ne_of_lt (hafter x hx row' hrow').1)
    · exact absurd heq.symm (Nat.ne_of_lt (hafter y hy row hrow).1)
    · rcases forall_of_pairwise hfresh hrow hrow' with rfl | hxy | hyx
      · rfl
      · exact absurd heq (Nat.ne_of_lt hxy.1)
      · exact absurd heq.symm (Nat.ne_of_lt hyx.1)
  · intro x hx
    change x.2 ≤ now' ∧ s.ledger.registered x.1 < s.ledger.moments + _ ∧
      activated x.1 < s.ledger.moments + _
    rcases hcases x hx with hx | ⟨row, hrow, rfl⟩
    · obtain ⟨hstint, hreg, hact⟩ := h.past x hx
      rw [hold x hx]
      exact ⟨Nat.le_trans hstint hp.clock, Nat.lt_of_lt_of_le hreg (Nat.le_add_right _ _),
        Nat.lt_of_lt_of_le hact (Nat.le_add_right _ _)⟩
    · have hknown := h.known row.1 (by rw [hqueued]; exact List.mem_append_left _ (hnew row hrow))
      exact ⟨(hp.within row hrow).2, Nat.lt_of_lt_of_le hknown (Nat.le_add_right _ _),
        (hwithin row.1 (hnew row hrow)).2⟩
  · intro b hb
    have hknown := h.known b (by rw [hqueued]; exact List.mem_append_right _ hb)
    exact Nat.lt_of_lt_of_le hknown (Nat.le_add_right _ _)

private theorem ordered_demotion {s : SeedingSystem} (h : s.Ordered)
    {parked : List (String × SeedingEntry)} (hd : s.manager.Demotion parked)
    (halone : ∀ row ∈ parked, Alone s.manager row) :
    ({ s with
        manager :=
          { s.manager with
            active := s.manager.remaining parked
            queued := parked.reverse.map (toQueued s.now) ++ s.manager.queued }
        ledger := (parked.map Prod.fst).foldl
          (fun ledger taskId ↦ ledger.noteStint s.manager.active s.now taskId) s.ledger } :
      SeedingSystem).Ordered := by
  obtain ⟨hturns, hbehind⟩ := Demotion.turns hd h halone
  have hmem : ∀ row ∈ s.manager.active, (row.1, row.2.stintStarted) ∈ s.stints :=
    fun row hrow ↦ mem_stints.mpr ⟨row, hrow, rfl⟩
  have hstay : ∀ x ∈ (s.manager.remaining parked).map (fun row ↦ (row.1, row.2.stintStarted)),
      x ∈ s.stints := fun x hx ↦ stints_remaining hx
  have hids : (parked.reverse.map (toQueued s.now) ++ s.manager.queued).map Prod.fst =
      (parked.map Prod.fst).reverse ++ s.waiting := by
    rw [List.map_append, map_fst_toQueued, List.map_reverse, waiting]
  have hparked : ∀ b ∈ (parked.map Prod.fst).reverse, ∃ row ∈ parked, row.1 = b := by
    intro b hb
    simpa using hb
  rw [foldl_noteStint]
  refine ⟨?_, ?_, ?_, ?_, ?_, ?_⟩
  · change ((parked.reverse.map (toQueued s.now) ++ s.manager.queued).map Prod.fst).Pairwise _
    rw [hids]
    refine List.pairwise_append.mpr ⟨hturns.imp fun hab ↦ hab.1, h.turns, ?_⟩
    intro a ha b hb
    obtain ⟨row, hrow, rfl⟩ := hparked a ha
    exact h.ahead _ (hmem row (hd.active row hrow)) b hb
  · intro x hx b hb
    change b ∈ (parked.reverse.map (toQueued s.now) ++ s.manager.queued).map Prod.fst at hb
    rw [hids, List.mem_append] at hb
    rcases hb with hb | hb
    · obtain ⟨row, hrow, rfl⟩ := hparked b hb
      obtain ⟨y, hy, rfl⟩ := List.mem_map.mp hx
      exact hbehind y hy row hrow
    · exact h.ahead x (hstay x hx) b hb
  · exact fun x hx y hy ↦ h.order x (hstay x hx) y (hstay y hy)
  · exact fun x hx y hy ↦ h.apart x (hstay x hx) y (hstay y hy)
  · exact fun x hx ↦ h.past x (hstay x hx)
  · intro b hb
    change b ∈ (parked.reverse.map (toQueued s.now) ++ s.manager.queued).map Prod.fst at hb
    rw [hids, List.mem_append] at hb
    rcases hb with hb | hb
    · obtain ⟨row, hrow, rfl⟩ := hparked b hb
      exact (h.past _ (hmem row (hd.active row hrow))).2.1
    · exact h.known b hb

private theorem ordered_register {s : SeedingSystem} (h : s.Ordered) (taskId : String)
    (uploaded : Int) (counter : Nat)
    (base : Int) (hturn : s.InTurn (.register taskId uploaded counter base)) :
    (s.register taskId uploaded counter base).Ordered := by
  unfold register
  rcases register_cases s.manager s.now taskId uploaded counter base with
    ⟨-, heq⟩ | ⟨hnot, hfree, heq⟩ | ⟨hnot, -, heq⟩
  · rw [heq]
    exact h
  · rw [heq]
    have hempty : s.manager.queued = [] := by
      rcases hturn with hin | hfull | hempty
      · rw [hnot] at hin
        cases hin
      · rw [hfree] at hfull
        cases hfull
      · exact hempty
    obtain ⟨hactive, -⟩ := contains_eq_false hnot
    have hne : ∀ x ∈ s.stints, x.1 ≠ taskId := by
      intro x hx heq
      obtain ⟨row, hrow, rfl⟩ := mem_stints.mp hx
      exact hactive (heq ▸ List.mem_map_of_mem hrow)
    have hcases : ∀ row : String × SeedingEntry, ∀ x,
        x ∈ (s.manager.active ++ [row]).map (fun row ↦ (row.1, row.2.stintStarted)) →
        x ∈ s.stints ∨ x = (row.1, row.2.stintStarted) := by
      intro row x hx
      rw [List.map_append, List.mem_append, List.map_singleton, List.mem_singleton] at hx
      exact hx
    have hreg : ∀ x ∈ s.stints, Function.update s.ledger.registered taskId s.ledger.moments x.1 =
        s.ledger.registered x.1 := fun x hx ↦ Function.update_of_ne (hne x hx) _ _
    have hact : ∀ x ∈ s.stints,
        Function.update s.ledger.activated taskId (s.ledger.moments + 1) x.1 =
          s.ledger.activated x.1 := fun x hx ↦ Function.update_of_ne (hne x hx) _ _
    have hself : Function.update s.ledger.registered taskId s.ledger.moments taskId =
        s.ledger.moments := Function.update_self ..
    have hselfAct : Function.update s.ledger.activated taskId (s.ledger.moments + 1) taskId =
        s.ledger.moments + 1 := Function.update_self ..
    have hnone : ∀ b, b ∉ s.waiting := by simp [waiting, hempty]
    refine ⟨h.turns.imp_of_mem fun ha _ _ ↦ absurd ha (hnone _), fun x _ b hb ↦
      absurd hb (hnone b), ?_, ?_, ?_, fun b hb ↦ absurd hb (hnone b)⟩
    · intro x hx y hy hlt
      change Function.update s.ledger.registered taskId s.ledger.moments x.1 <
        Function.update s.ledger.registered taskId s.ledger.moments y.1 at hlt
      change x.2 ≤ y.2 ∧ Function.update s.ledger.activated taskId (s.ledger.moments + 1) x.1 <
        Function.update s.ledger.activated taskId (s.ledger.moments + 1) y.1
      rcases hcases _ x hx with hx | rfl <;> rcases hcases _ y hy with hy | rfl
      · rw [hreg x hx, hreg y hy] at hlt
        rw [hact x hx, hact y hy]
        exact h.order x hx y hy hlt
      · have hpast := h.past x hx
        rw [hact x hx, hselfAct]
        exact ⟨hpast.1, Nat.lt_succ_of_lt hpast.2.2⟩
      · rw [hself, hreg y hy] at hlt
        exact absurd (h.past y hy).2.1 (Nat.not_lt.mpr (Nat.le_of_lt hlt))
      · exact absurd hlt (Nat.lt_irrefl _)
    · intro x hx y hy heq
      change Function.update s.ledger.registered taskId s.ledger.moments x.1 =
        Function.update s.ledger.registered taskId s.ledger.moments y.1 at heq
      rcases hcases _ x hx with hx | rfl <;> rcases hcases _ y hy with hy | rfl
      · rw [hreg x hx, hreg y hy] at heq
        exact h.apart x hx y hy heq
      · rw [hreg x hx, hself] at heq
        exact absurd heq (Nat.ne_of_lt (h.past x hx).2.1)
      · rw [hreg y hy, hself] at heq
        exact absurd heq.symm (Nat.ne_of_lt (h.past y hy).2.1)
      · rfl
    · intro x hx
      change x.2 ≤ s.now ∧
        Function.update s.ledger.registered taskId s.ledger.moments x.1 < s.ledger.moments + 2 ∧
        Function.update s.ledger.activated taskId (s.ledger.moments + 1) x.1 <
          s.ledger.moments + 2
      rcases hcases _ x hx with hx | rfl
      · have hpast := h.past x hx
        rw [hreg x hx, hact x hx]
        omega
      · rw [hself, hselfAct]
        exact ⟨Nat.le_refl _, by omega, by omega⟩
  · rw [heq]
    obtain ⟨hactive, hqueued⟩ := contains_eq_false hnot
    have hstints : ∀ x ∈ s.stints, Function.update s.ledger.registered taskId s.ledger.moments
        x.1 = s.ledger.registered x.1 := by
      intro x hx
      obtain ⟨row, hrow, rfl⟩ := mem_stints.mp hx
      have hne : row.1 ≠ taskId := fun heq ↦ hactive (heq ▸ List.mem_map_of_mem hrow)
      exact Function.update_of_ne hne _ _
    have hwaiting : ∀ b ∈ s.waiting, Function.update s.ledger.registered taskId s.ledger.moments
        b = s.ledger.registered b := by
      intro b hb
      have hne : b ≠ taskId := fun heq ↦ hqueued (heq ▸ hb)
      exact Function.update_of_ne hne _ _
    have hself : Function.update s.ledger.registered taskId s.ledger.moments taskId =
        s.ledger.moments := Function.update_self ..
    have hcases : ∀ seed : QueuedSeed, ∀ b,
        b ∈ (s.manager.queued ++ [(taskId, seed)]).map Prod.fst → b ∈ s.waiting ∨ b = taskId := by
      intro seed b hb
      rw [List.map_append, List.mem_append, List.map_singleton, List.mem_singleton] at hb
      exact hb
    refine ⟨?_, ?_, ?_, ?_, ?_, ?_⟩
    · change ((s.manager.queued ++ [(taskId, (⟨uploaded, base⟩ : QueuedSeed))]).map
        Prod.fst).Pairwise fun a b ↦
          Function.update s.ledger.registered taskId s.ledger.moments a <
            Function.update s.ledger.registered taskId s.ledger.moments b
      rw [List.map_append, List.pairwise_append]
      refine ⟨h.turns.imp_of_mem fun ha hb hlt ↦ ?_, List.pairwise_singleton _ _, ?_⟩
      · rw [hwaiting _ ha, hwaiting _ hb]
        exact hlt
      · intro a ha b hb
        obtain rfl : b = taskId := by simpa using hb
        rw [hwaiting a ha, hself]
        exact h.known a ha
    · intro x hx b hb
      change Function.update s.ledger.registered taskId s.ledger.moments x.1 <
        Function.update s.ledger.registered taskId s.ledger.moments b
      rw [hstints x hx]
      rcases hcases _ b hb with hb | rfl
      · rw [hwaiting b hb]
        exact h.ahead x hx b hb
      · rw [hself]
        exact (h.past x hx).2.1
    · intro x hx y hy hlt
      change Function.update s.ledger.registered taskId s.ledger.moments x.1 <
        Function.update s.ledger.registered taskId s.ledger.moments y.1 at hlt
      rw [hstints x hx, hstints y hy] at hlt
      exact h.order x hx y hy hlt
    · intro x hx y hy heq
      change Function.update s.ledger.registered taskId s.ledger.moments x.1 =
        Function.update s.ledger.registered taskId s.ledger.moments y.1 at heq
      rw [hstints x hx, hstints y hy] at heq
      exact h.apart x hx y hy heq
    · intro x hx
      change x.2 ≤ s.now ∧
        Function.update s.ledger.registered taskId s.ledger.moments x.1 < s.ledger.moments + 1 ∧
        s.ledger.activated x.1 < s.ledger.moments + 1
      have hpast := h.past x hx
      rw [hstints x hx]
      omega
    · intro b hb
      change Function.update s.ledger.registered taskId s.ledger.moments b < s.ledger.moments + 1
      rcases hcases _ b hb with hb | rfl
      · rw [hwaiting b hb]
        exact Nat.lt_succ_of_lt (h.known b hb)
      · rw [hself]
        exact Nat.lt_succ_self _

/-- The steps in turn keep the order. -/
theorem ordered_step (s : SeedingSystem) (op : Op) (hdistinct : s.manager.Distinct)
    (h : s.Ordered) (hturn : s.InTurn op) : (s.step op).Ordered := by
  have hsame : ∀ {s' : SeedingSystem}, s'.stints = s.stints → s'.waiting = s.waiting →
      s'.ledger.registered = s.ledger.registered →
      s'.ledger.activated = s.ledger.activated → s'.ledger.moments = s.ledger.moments →
      s.now ≤ s'.now → s'.Ordered := by
    intro s' hstints hwaiting hreg hact hmoments hnow
    exact h.shrink (fun x hx ↦ hstints ▸ hx) (hwaiting ▸ List.Sublist.refl _) hreg hact hmoments
      hnow
  cases op with
  | register taskId uploaded counter base =>
    exact ordered_register h taskId uploaded counter base hturn
  | reconcile ticks =>
    rcases reconcile_step s hdistinct ticks with
      ⟨fresh, seeds, rest, now', hp, -, -, heq⟩ | ⟨parked, hd, hsurplus, -, -, heq⟩
    · rw [heq]
      exact ordered_promotion h hdistinct hp
    · rw [heq]
      exact ordered_demotion h hd fun row hrow ↦
        hturn row (hd.active row hrow) (hsurplus row hrow)
  | applyUploadSnapshot taskId counter speed =>
    obtain ⟨hactive, hqueued⟩ := stints_applyUploadSnapshot s.manager s.now taskId counter speed
    exact hsame hactive (congrArg (List.map Prod.fst) hqueued) rfl rfl rfl (Nat.le_refl _)
  | markUploadsPersisted persist =>
    simp only [step, markUploadsPersisted]
    split
    · next uploads _ =>
      exact hsame (view_markUploadsPersisted (fun _ _ ↦ rfl) s.manager uploads) rfl rfl rfl rfl (Nat.le_refl _)
    · exact h
  | writeUploads persist =>
    simp only [step, writeUploads]
    split
    · next uploads _ =>
      have hwritten : ∀ (items : List (String × Int)) (l : SeedingLedger),
          (items.foldl SeedingLedger.noteWritten l).registered = l.registered ∧
          (items.foldl SeedingLedger.noteWritten l).activated = l.activated ∧
          (items.foldl SeedingLedger.noteWritten l).moments = l.moments := by
        intro items
        induction items with
        | nil => exact fun l ↦ ⟨rfl, rfl, rfl⟩
        | cons item items ih => exact fun l ↦ ih (l.noteWritten item)
      obtain ⟨hreg, hact, hmoments⟩ := hwritten uploads s.ledger
      exact hsame rfl rfl hreg hact hmoments (Nat.le_refl _)
    · exact h
  | failUploads persist =>
    simp only [step, failUploads]
    split
    · exact hsame rfl rfl rfl rfl rfl (Nat.le_refl _)
    · exact h
  | unregister taskId =>
    have hledger := noteStint_eq s.ledger s.manager.active s.now taskId
    simp only [step, unregister]
    rw [hledger]
    rcases unregister_cases s.manager s.now taskId with
      ⟨entry, -, heq⟩ | ⟨-, seed, -, heq⟩ | ⟨-, heq⟩
    · rw [heq]
      exact h.shrink (fun x hx ↦ (List.filter_sublist.map _).subset hx) (List.Sublist.refl _) rfl
        rfl rfl (Nat.le_refl _)
    · rw [heq]
      exact h.shrink (fun x hx ↦ hx) (List.eraseP_sublist.map _) rfl rfl rfl (Nat.le_refl _)
    · rw [heq]
      exact hsame rfl rfl rfl rfl rfl (Nat.le_refl _)
  | rehash active =>
    simp only [step]
    split
    · next hperm =>
      exact h.shrink (fun x hx ↦ (hperm.map _).mem_iff.mp hx) (List.Sublist.refl _) rfl rfl rfl
        (Nat.le_refl _)
    · exact h
  | setCap cap => exact hsame rfl rfl rfl rfl rfl (Nat.le_refl _)
  | unpersistedUploads rows => exact hsame rfl rfl rfl rfl rfl (Nat.le_refl _)
  | clock nanos => exact hsame rfl rfl rfl rfl rfl (Nat.le_add_right _ _)

end Order

end Engine.SeedingSystem
