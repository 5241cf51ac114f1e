import FluxDown.Engine.Seeding

/-!
# What a reconciliation does

Library `Engine`. The promoted seeds are a prefix of the queue and are activated in its order;
the demoted seeders are those with the latest stints and go to the front of the queue, the
earliest of them first. A reconciliation does one or the other, and leaves the cap used up or
the queue empty.
-/

namespace Engine.SeedingManager

open Base

/-- Every task is registered once, as active or as queued. -/
def Distinct (m : SeedingManager) : Prop :=
  (m.active.map Prod.fst ++ m.queued.map Prod.fst).Nodup

/-- The seeds left the queue and became the fresh entries. -/
structure Promotion (m : SeedingManager) (now : Nat) (fresh : List (String × SeedingEntry))
    (seeds rest : List (String × QueuedSeed)) (now' : Nat) : Prop where
  queue : m.queued = seeds ++ rest
  entries : List.Forall₂
    (fun (seed : String × QueuedSeed) (row : String × SeedingEntry) ↦
      row = (seed.1, seed.2.activate row.2.stintStarted)) seeds fresh
  sorted : fresh.Pairwise fun x y ↦ x.2.stintStarted ≤ y.2.stintStarted
  within : ∀ row ∈ fresh, now ≤ row.2.stintStarted ∧ row.2.stintStarted ≤ now'
  clock : now ≤ now'
  full : rest = [] ∨ m.cap ≠ 0 ∧ m.cap ≤ (m.active ++ fresh).length
  room : seeds ≠ [] → m.cap = 0 ∨ (m.active ++ fresh).length ≤ m.cap
  idle : seeds = [] → now' = now

private theorem hasFreeSlot_iff {m : SeedingManager} :
    m.hasFreeSlot = true ↔ m.cap = 0 ∨ m.active.length < m.cap := by
  simp [hasFreeSlot]

private theorem lastRow?_of_distinct {m : SeedingManager} (h : m.Distinct) {taskId : String}
    (hid : taskId ∈ m.queued.map Prod.fst) : lastRow? Prod.fst taskId m.active = none := by
  rw [lastRow?_eq_none_iff]
  intro row hrow heq
  exact (List.nodup_append.mp h).2.2 row.1 (List.mem_map_of_mem hrow) taskId hid heq

private theorem promote_promotion : ∀ {queued : List (String × QueuedSeed)} {m : SeedingManager}
    (ticks : List Nat) (now : Nat) (activated : List String), m.queued = queued → m.Distinct →
    ∃ fresh seeds rest now', m.Promotion now fresh seeds rest now' ∧
      promote queued ticks now m activated =
        ({ m with active := m.active ++ fresh, queued := rest }, now',
          activated ++ seeds.map Prod.fst)
  | [], m, ticks, now, activated, hq, _ => by
    refine ⟨[], [], [], now, ⟨hq, .nil, .nil, by simp, Nat.le_refl now, Or.inl rfl,
      fun h ↦ absurd rfl h, fun _ ↦ rfl⟩, ?_⟩
    rw [promote, List.append_nil, List.map_nil, List.append_nil]
    exact congrArg (fun q ↦ ({ m with queued := q }, now, activated)) hq
  | (taskId, seed) :: queued, m, ticks, now, activated, hq, hdistinct => by
    by_cases hfree : m.hasFreeSlot = true
    · let row := (taskId, seed.activate (now + ticks.headD 0))
      have habsent : lastRow? Prod.fst (Prod.fst row) m.active = none :=
        lastRow?_of_distinct hdistinct (by rw [hq]; simp [row])
      have hnext : ({ m with active := m.active ++ [row], queued } : SeedingManager).Distinct := by
        unfold Distinct at hdistinct ⊢
        rw [hq] at hdistinct
        simpa [row] using hdistinct
      obtain ⟨fresh, seeds, rest, now', hp, heq⟩ :=
        promote_promotion ticks.tail (now + ticks.headD 0) (activated ++ [taskId]) rfl hnext
      refine ⟨row :: fresh, (taskId, seed) :: seeds, rest, now', ?_, ?_⟩
      · have hclock : now ≤ now' := Nat.le_trans (Nat.le_add_right _ _) hp.clock
        refine ⟨?_, .cons rfl hp.entries, ?_, ?_, hclock, ?_, fun _ ↦ ?_, fun h ↦ ?_⟩
        · rw [hq, List.cons_append, ← hp.queue]
        · exact List.pairwise_cons.mpr ⟨fun y hy ↦ (hp.within y hy).1, hp.sorted⟩
        · intro other hother
          rcases List.mem_cons.mp hother with rfl | hin
          · exact ⟨Nat.le_add_right _ _, hp.clock⟩
          · exact ⟨Nat.le_trans (Nat.le_add_right _ _) (hp.within other hin).1,
              (hp.within other hin).2⟩
        · simpa using hp.full
        · cases seeds with
          | nil =>
            cases hp.entries
            rcases hasFreeSlot_iff.mp hfree with hzero | hlt
            · exact Or.inl hzero
            · exact Or.inr (by simpa using Nat.succ_le_of_lt hlt)
          | cons first seeds =>
            have hroom := hp.room (List.cons_ne_nil _ _)
            simpa using hroom
        · cases h
      · rw [promote, if_pos hfree]
        change promote queued ticks.tail (now + ticks.headD 0)
          { m with active := upsertRow Prod.fst row m.active, queued } (activated ++ [taskId]) = _
        rw [upsertRow_of_none habsent]
        simp only [heq, List.append_assoc, List.singleton_append, List.map_cons]
    · refine ⟨[], [], (taskId, seed) :: queued, now, ⟨hq, .nil, .nil, by simp, Nat.le_refl now,
        Or.inr ?_, fun h ↦ absurd rfl h, fun _ ↦ rfl⟩, ?_⟩
      · rw [hasFreeSlot_iff, not_or] at hfree
        exact ⟨hfree.1, by simpa using hfree.2⟩
      · rw [promote, if_neg hfree, ← hq, List.append_nil, List.map_nil, List.append_nil]

private theorem latest_isSome {rows : List (String × SeedingEntry)} (h : rows ≠ []) :
    ∃ row, latest rows = some row := by
  cases rows with
  | nil => exact absurd rfl h
  | cons row rows =>
    rw [latest]
    split
    · exact ⟨row, rfl⟩
    · next best _ =>
      split
      · exact ⟨best, rfl⟩
      · exact ⟨row, rfl⟩

private theorem latest_spec {rows : List (String × SeedingEntry)} {row : String × SeedingEntry}
    (h : latest rows = some row) :
    row ∈ rows ∧ ∀ other ∈ rows, other.2.stintStarted ≤ row.2.stintStarted := by
  induction rows generalizing row with
  | nil => cases h
  | cons first rows ih =>
    rw [latest] at h
    split at h
    · next hnone =>
      obtain rfl := Option.some.inj h
      have hnil : rows = [] := by
        by_contra hne
        obtain ⟨best, hbest⟩ := latest_isSome hne
        rw [hbest] at hnone
        cases hnone
      subst hnil
      simp
    · next best hbest =>
      obtain ⟨hmem, hmax⟩ := ih hbest
      split at h
      · next hle =>
        obtain rfl := Option.some.inj h
        exact ⟨List.mem_cons_of_mem _ hmem, List.forall_mem_cons.mpr ⟨hle, hmax⟩⟩
      · next hlt =>
        obtain rfl := Option.some.inj h
        refine ⟨List.mem_cons_self, List.forall_mem_cons.mpr ⟨Nat.le_refl _, ?_⟩⟩
        intro other hother
        exact Nat.le_trans (hmax other hother) (Nat.le_of_lt (Nat.lt_of_not_le hlt))

/-- The active rows that stay when others are parked. -/
def remaining (m : SeedingManager) (parked : List (String × SeedingEntry)) :
    List (String × SeedingEntry) :=
  m.active.filter fun row ↦ row.1 ∉ parked.map Prod.fst

/-- What a parked row becomes. -/
def toQueued (now : Nat) (row : String × SeedingEntry) : String × QueuedSeed :=
  (row.1, { uploadedAtCompletion := row.2.uploadedAtCompletion
            seedTimeBaseSecs := row.2.effectiveSeedTimeSecs now })

/-- The parked rows are those with the latest stints, the latest first. -/
structure Demotion (m : SeedingManager) (parked : List (String × SeedingEntry)) : Prop where
  active : ∀ row ∈ parked, row ∈ m.active
  once : (parked.map Prod.fst).Nodup
  sorted : parked.Pairwise fun x y ↦ y.2.stintStarted ≤ x.2.stintStarted
  later : ∀ x ∈ parked, ∀ y ∈ m.remaining parked, y.2.stintStarted ≤ x.2.stintStarted
  count : (m.remaining parked).length + parked.length = m.active.length
  fits : (m.remaining parked).length = min m.cap m.active.length

private theorem remaining_nil (m : SeedingManager) : m.remaining [] = m.active := by
  simp [remaining]

private theorem remaining_park (m : SeedingManager) (now : Nat) (row : String × SeedingEntry)
    (parked : List (String × SeedingEntry)) :
    (m.park now row).remaining parked = m.remaining (row :: parked) := by
  rw [remaining, park, List.filter_filter, remaining]
  apply List.filter_congr
  intro other _
  simp only [List.map_cons, List.mem_cons, List.not_mem_nil, or_false]
  by_cases hrow : other.1 = row.1 <;> simp [hrow]

private theorem nodup_active {m : SeedingManager} (h : m.Distinct) :
    (m.active.map Prod.fst).Nodup :=
  (List.nodup_append.mp h).1

private theorem distinct_park {m : SeedingManager} (h : m.Distinct) (now : Nat)
    {row : String × SeedingEntry} (hrow : row ∈ m.active) : (m.park now row).Distinct := by
  obtain ⟨hactive, hqueued, hapart⟩ := List.nodup_append.mp h
  have hfilter : ∀ k ∈ (m.park now row).active.map Prod.fst, k ∈ m.active.map Prod.fst ∧
      k ≠ row.1 := by
    intro k hk
    obtain ⟨other, hother, rfl⟩ := List.mem_map.mp hk
    obtain ⟨hin, hne⟩ := List.mem_filter.mp hother
    exact ⟨List.mem_map_of_mem hin, by simpa using hne⟩
  refine List.nodup_append.mpr ⟨(List.filter_sublist.map Prod.fst).nodup hactive, ?_, ?_⟩
  · change (row.1 :: m.queued.map Prod.fst).Nodup
    refine List.nodup_cons.mpr ⟨fun hin ↦ ?_, hqueued⟩
    exact hapart row.1 (List.mem_map_of_mem hrow) row.1 hin rfl
  · intro a ha b hb heq
    subst heq
    rcases List.mem_cons.mp hb with heq | hin
    · exact (hfilter a ha).2 heq
    · exact hapart a (hfilter a ha).1 a hin rfl

private theorem length_park {m : SeedingManager} (h : m.Distinct) (now : Nat)
    {row : String × SeedingEntry} (hrow : row ∈ m.active) :
    (m.park now row).active.length + 1 = m.active.length := by
  have hcount := countP_filter_ne Prod.fst (fun _ ↦ true) (nodup_active h) row.1
  have hfound : lastRow? Prod.fst row.1 m.active = some row :=
    (lastRow?_eq_some_iff (nodup_active h)).mpr ⟨hrow, rfl⟩
  rw [hfound, List.countP_true] at hcount
  exact hcount

private theorem demote_demotion (now : Nat) : ∀ (fuel : Nat) {m : SeedingManager}
    (demoted : List (String × Int)), m.Distinct → m.active.length - m.cap ≤ fuel →
    ∃ parked, m.Demotion parked ∧
      demote now fuel m demoted =
        ({ m with
            active := m.remaining parked
            queued := parked.reverse.map (toQueued now) ++ m.queued },
          demoted ++ parked.map fun row ↦ (row.1, row.2.effectiveSeedTimeSecs now))
  | fuel, m, demoted, hdistinct, hfuel => by
    by_cases hover : m.cap < m.active.length
    · obtain ⟨fuel, rfl⟩ : ∃ n, fuel = n + 1 := ⟨fuel - 1, by omega⟩
      have hsome : m.active ≠ [] := List.ne_nil_of_length_pos (by omega)
      obtain ⟨row, hlatest⟩ := latest_isSome hsome
      obtain ⟨hrow, hmax⟩ := latest_spec hlatest
      have hlen := length_park hdistinct now hrow
      obtain ⟨parked, hd, heq⟩ := demote_demotion now fuel
        (demoted ++ [(row.1, row.2.effectiveSeedTimeSecs now)]) (distinct_park hdistinct now hrow)
        (show (m.park now row).active.length - m.cap ≤ fuel by omega)
      have hold : ∀ other ∈ (m.park now row).active, other ∈ m.active ∧ other.1 ≠ row.1 := by
        intro other hother
        obtain ⟨hin, hne⟩ := List.mem_filter.mp hother
        exact ⟨hin, by simpa using hne⟩
      refine ⟨row :: parked, ⟨?_, ?_, ?_, ?_, ?_, ?_⟩, ?_⟩
      · exact List.forall_mem_cons.mpr ⟨hrow, fun x hx ↦ (hold x (hd.active x hx)).1⟩
      · refine List.nodup_cons.mpr ⟨fun hin ↦ ?_, hd.once⟩
        obtain ⟨x, hx, heq⟩ := List.mem_map.mp hin
        exact (hold x (hd.active x hx)).2 heq
      · exact List.pairwise_cons.mpr ⟨fun y hy ↦ hmax y (hold y (hd.active y hy)).1, hd.sorted⟩
      · rw [← remaining_park m now row parked]
        intro x hx y hy
        rcases List.mem_cons.mp hx with rfl | hx
        · exact hmax y (hold y (List.mem_filter.mp hy).1).1
        · exact hd.later x hx y hy
      · have hcount := hd.count
        rw [remaining_park] at hcount
        rw [List.length_cons]
        omega
      · have hfits := hd.fits
        rw [remaining_park] at hfits
        rw [hfits]
        change min m.cap _ = _
        omega
      · rw [demote, if_pos hover, hlatest]
        simp only [heq, remaining_park, List.reverse_cons, List.map_append, List.map_cons,
          List.map_nil, List.append_assoc, List.singleton_append]
        rfl
    · refine ⟨[], ⟨by simp, .nil, .nil, by simp, ?_, ?_⟩, ?_⟩
      · rw [remaining_nil, List.length_nil, Nat.add_zero]
      · rw [remaining_nil, Nat.min_eq_right (Nat.le_of_not_lt hover)]
      · cases fuel with
        | zero => simp [demote, remaining_nil]
        | succ fuel => simp [demote, if_neg hover, remaining_nil]

/-- A reconciliation promotes or demotes, never both. -/
theorem reconcile_cases {m : SeedingManager} (hdistinct : m.Distinct) (now : Nat)
    (ticks : List Nat) :
    (∃ fresh seeds rest now', m.Promotion now fresh seeds rest now' ∧
      (m.cap = 0 ∨ (m.active ++ fresh).length ≤ m.cap) ∧
      m.reconcile now ticks =
        { manager := { m with active := m.active ++ fresh, queued := rest }
          now := now'
          activated := seeds.map Prod.fst
          demoted := [] }) ∨
    ∃ parked, m.Demotion parked ∧ 0 < m.cap ∧ m.cap < m.active.length ∧
      m.reconcile now ticks =
        { manager :=
            { m with
              active := m.remaining parked
              queued := parked.reverse.map (toQueued now) ++ m.queued }
          now
          activated := []
          demoted := parked.map fun row ↦ (row.1, row.2.effectiveSeedTimeSecs now) } := by
  obtain ⟨fresh, seeds, rest, now', hp, hpromote⟩ :=
    promote_promotion ticks now [] (rfl : m.queued = m.queued) hdistinct
  by_cases hfits : m.cap = 0 ∨ (m.active ++ fresh).length ≤ m.cap
  · left
    refine ⟨fresh, seeds, rest, now', hp, hfits, ?_⟩
    rw [reconcile, hpromote]
    by_cases hcap : 0 < m.cap
    · have hle : (m.active ++ fresh).length ≤ m.cap := hfits.resolve_left (by omega)
      have hstay : ∀ (fuel : Nat) (m' : SeedingManager), m'.active.length ≤ m'.cap →
          demote now' fuel m' [] = (m', []) := by
        intro fuel m' hle
        cases fuel with
        | zero => rfl
        | succ fuel => rw [demote, if_neg (Nat.not_lt.mpr hle)]
      have hdemote := hstay (m.active ++ fresh).length
        { m with active := m.active ++ fresh, queued := rest } hle
      simp only [if_pos hcap, hdemote, List.nil_append]
    · simp only [if_neg hcap, List.nil_append]
  · right
    rw [not_or] at hfits
    have hnone : seeds = [] := by
      by_contra hne
      rcases hp.room hne with hzero | hle
      · exact hfits.1 hzero
      · exact hfits.2 hle
    subst hnone
    have hnow := hp.idle rfl
    subst hnow
    have hfresh : fresh = [] := by cases hp.entries; rfl
    subst hfresh
    have hqueue : rest = m.queued := hp.queue.symm
    subst hqueue
    rw [List.append_nil] at hfits hpromote
    have hcap : 0 < m.cap := Nat.pos_of_ne_zero hfits.1
    obtain ⟨parked, hd, hdemote⟩ := demote_demotion now' m.active.length [] hdistinct
      (Nat.sub_le _ _)
    refine ⟨parked, hd, hcap, Nat.lt_of_not_le hfits.2, ?_⟩
    rw [reconcile, hpromote]
    simp only [if_pos hcap, hdemote, List.nil_append, List.map_nil, List.append_nil]

/-- After a reconciliation with a cap, the cap is used up or nobody waits. -/
theorem reconcile_balanced {m : SeedingManager} (hdistinct : m.Distinct) (now : Nat)
    (ticks : List Nat) (hcap : 0 < m.cap) :
    ((m.reconcile now ticks).manager.active.length ≤ m.cap ∧
        (m.reconcile now ticks).manager.queued = []) ∨
      (m.reconcile now ticks).manager.active.length = m.cap := by
  rcases reconcile_cases hdistinct now ticks with
    ⟨fresh, seeds, rest, now', hp, hfits, heq⟩ | ⟨parked, hd, -, hover, heq⟩
  · rw [heq]
    have hle : (m.active ++ fresh).length ≤ m.cap := hfits.resolve_left (by omega)
    rcases hp.full with hrest | ⟨-, hge⟩
    · exact Or.inl ⟨hle, hrest⟩
    · exact Or.inr (Nat.le_antisymm hle hge)
  · rw [heq]
    exact Or.inr (hd.fits.trans (Nat.min_eq_left (Nat.le_of_lt hover)))

end Engine.SeedingManager
