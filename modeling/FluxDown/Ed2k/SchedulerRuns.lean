import FluxDown.Ed2k.SchedulerSafety

/-!
# Runs of the scheduler

Library `Ed2k`. A step keeps the blocks, takes stock, fills slots or settles tasks that ended. Over a
run no block gets lost but by a task of it that panicked, and a source once blacklisted is given no
block again.
-/

namespace Ed2k

open Base

/-- Blocks are being fetched. -/
def SchedulerPhase.isInner : SchedulerPhase → Bool
  | .outer => false
  | .ended _ => false
  | _ => true

namespace Scheduler

variable {hashPart : List UInt8 → Md4} {file : Ed2kFile}

/-! ## What a step does -/

/-- No block, mark or task changes. -/
structure Quiet (s t : Scheduler) : Prop where
  rows : t.rows = s.rows
  snapshot : t.snapshot = s.snapshot
  pending : t.pending = s.pending
  running : t.running = s.running
  integrityBl : t.integrityBl = s.integrityBl
  hashsetCache : t.hashsetCache = s.hashsetCache
  inner : t.phase.isInner = true → s.phase.isInner = true
  succeeds : ∀ n, t.phase = .ended (.ok n) → s.phase = .ended (.ok n)

/-- Stock was taken: the final check may have written, or what has no mark waits. -/
structure Restocked (s t : Scheduler) : Prop where
  rows : ∃ update, t.rows = s.rows.afterFinalize update
  running : t.running = s.running
  integrityBl : t.integrityBl = s.integrityBl
  hashsetCache : t.hashsetCache = s.hashsetCache
  inner : t.phase.isInner = true → t.snapshot = s.snapshot ∧ t.pending = s.snapshot.pending

/-- Slots were filled. -/
structure Filled (s t : Scheduler) (new : List (Nat × Source)) : Prop where
  rows : t.rows = s.rows
  snapshot : t.snapshot = s.snapshot
  pending : (t.pending ++ new.map Prod.fst).Perm s.pending
  running : t.running = s.running ++ new
  usable : ∀ task ∈ new, s.usable task.1 task.2 = true
  integrityBl : t.integrityBl = s.integrityBl
  hashsetCache : t.hashsetCache = s.hashsetCache
  succeeds : ∀ n, t.phase ≠ .ended (.ok n)

/-- A hashset is kept, or nothing changes. -/
theorem anchor_eq (hashPart : List UInt8 → Md4) (file : Ed2kFile) (s : Scheduler)
    (block : Nat) (hashes : List Digest) : ∃ hashsetCache,
    s.anchor hashPart file block hashes = { s with hashsetCache } ∧
      (hashsetCache = s.hashsetCache ∨ hashsetCache = normalizeHashset hashPart
        (hashes.map Subtype.val) file.rootHash file.totalBytes file.partSize) := by
  unfold anchor
  split
  · exact ⟨_, rfl, .inr rfl⟩
  · exact ⟨_, rfl, .inl rfl⟩

private theorem quiet_find {s : Scheduler} (hphase : s.phase = .finding) (config : Bool)
    (server : Option (List Source)) (kad : KadAnswer) (statusWritten : Bool) :
    s.Quiet (s.find config server kad statusWritten) := by
  have hinner : s.phase.isInner = true := by rw [hphase]; rfl
  have hsettle : ∀ merged, s.Quiet (find.settle s statusWritten merged) := by
    intro merged
    unfold find.settle
    dsimp only
    split
    · exact ⟨rfl, rfl, rfl, rfl, rfl, rfl, fun _ ↦ hinner, fun _ h ↦ by cases h⟩
    · split
      · exact ⟨rfl, rfl, rfl, rfl, rfl, rfl, fun _ ↦ hinner, fun _ h ↦ by cases h⟩
      · split
        · exact ⟨rfl, rfl, rfl, rfl, rfl, rfl, fun _ ↦ hinner, fun _ h ↦ by cases h⟩
        · exact ⟨rfl, rfl, rfl, rfl, rfl, rfl, fun _ ↦ hinner, fun _ h ↦ by cases h⟩
  have hover : ∀ e, s.Quiet (s.fail e) := fun e ↦
    ⟨rfl, rfl, rfl, rfl, rfl, rfl, fun _ ↦ hinner, fun _ h ↦ by cases h⟩
  unfold find
  split
  · exact hover _
  · split
    · exact hover _
    · split
      · exact hover _
      · exact hsettle _
      · exact hsettle _

private theorem quiet_wake {s : Scheduler} (hphase : s.phase = .sleeping) : s.Quiet s.wake := by
  have hinner : s.phase.isInner = true := by rw [hphase]; rfl
  unfold wake
  split
  · exact ⟨rfl, rfl, rfl, rfl, rfl, rfl, fun _ ↦ hinner, fun _ h ↦ by cases h⟩
  · exact ⟨rfl, rfl, rfl, rfl, rfl, rfl, fun _ ↦ hinner, fun _ h ↦ by cases h⟩

/-- Taking stock finds the rows as they are stored. -/
theorem restocked_takeStock (hashPart : List UInt8 → Md4) (file : Ed2kFile) {s : Scheduler}
    (hphase : s.phase = .outer) (disk : List UInt8) (hashsetRead writes loads : Bool) :
    s.Restocked (s.takeStock hashPart file disk hashsetRead writes loads) := by
  unfold takeStock
  dsimp only
  split
  · generalize finalizeAndVerify hashPart _ writes disk file.rootHash file.totalBytes
      file.partSize = checked
    obtain ⟨update, outcome⟩ := checked
    dsimp only
    split
    · exact ⟨⟨update, rfl⟩, rfl, rfl, rfl, fun h ↦ by cases h⟩
    · split
      · split
        · exact ⟨⟨update, rfl⟩, rfl, rfl, rfl,
            fun h ↦ by simp [hphase, SchedulerPhase.isInner] at h⟩
        · exact ⟨⟨update, rfl⟩, rfl, rfl, rfl, fun h ↦ by cases h⟩
      · exact ⟨⟨update, rfl⟩, rfl, rfl, rfl, fun h ↦ by cases h⟩
    · exact ⟨⟨update, rfl⟩, rfl, rfl, rfl, fun h ↦ by cases h⟩
  · exact ⟨⟨none, rfl⟩, rfl, rfl, rfl, fun _ ↦ ⟨rfl, rfl⟩⟩

private theorem filled_fill (s : Scheduler) : ∃ new, s.Filled s.fill new := by
  unfold fill
  split
  · exact ⟨[], rfl, rfl, by simp [fail], by simp [fail], by simp, rfl, rfl,
      fun _ h ↦ by cases h⟩
  · obtain ⟨roundRobin, pending, new, heq, hperm, hnew, -⟩ := fillSlots_eq s.pending.length s
    rw [heq]
    refine ⟨new, ?_⟩
    dsimp only
    split
    · split
      · exact ⟨rfl, rfl, hperm, rfl, hnew, rfl, rfl, fun _ h ↦ by cases h⟩
      · exact ⟨rfl, rfl, hperm, rfl, hnew, rfl, rfl, fun _ h ↦ by cases h⟩
    · exact ⟨rfl, rfl, hperm, rfl, hnew, rfl, rfl, fun _ h ↦ by cases h⟩

/-- A step changes nothing about blocks, keeps a hashset, takes stock, fills slots, or settles
tasks that ended. -/
theorem step_cases (hashPart : List UInt8 → Md4) (file : Ed2kFile) (s : Scheduler)
    (op : SchedulerOp) :
    s.Quiet (s.step hashPart file op) ∨
      (∃ block hashes, op = .hashset block hashes ∧
        s.step hashPart file op = s.anchor hashPart file block hashes) ∨
      (∃ disk hashsetRead writes loads, op = .takeStock disk hashsetRead writes loads ∧
        s.phase = .outer ∧ s.step hashPart file op =
          s.takeStock hashPart file disk hashsetRead writes loads) ∨
      s.phase.isInner = true ∧ (∃ new, s.Filled (s.step hashPart file op) new) ∨
      ∃ ends persist unwritten, op = .join ends persist unwritten ∧ s.phase = .joining ∧
        s.step hashPart file op = s.join file ends persist unwritten := by
  unfold step
  split
  · exact .inl ⟨rfl, rfl, rfl, rfl, rfl, rfl, id, fun _ ↦ id⟩
  · exact .inl ⟨rfl, rfl, rfl, rfl, rfl, rfl, id, fun _ ↦ id⟩
  · next block hashes _ => exact .inr (.inl ⟨block, hashes, rfl, rfl⟩)
  · next disk hashsetRead writes loads hphase =>
    exact .inr (.inr (.inl ⟨disk, hashsetRead, writes, loads, rfl, hphase, rfl⟩))
  · next hphase => exact .inr (.inr (.inr (.inl ⟨by rw [hphase]; rfl, filled_fill s⟩)))
  · next hphase => exact .inl (quiet_find hphase _ _ _ _)
  · next hphase => exact .inl (quiet_wake hphase)
  · next ends persist unwritten hphase =>
    exact .inr (.inr (.inr (.inr ⟨ends, persist, unwritten, rfl, hphase, rfl⟩)))
  · exact .inl ⟨rfl, rfl, rfl, rfl, rfl, rfl, id, fun _ ↦ id⟩

/-! ## Tasks that end -/

/-- Tasks were settled whose blocks `left` have to wait again. -/
structure Settled (s t : Scheduler) (left : List Nat) : Prop where
  rows : ∀ i, t.rows.Verified i → s.rows.Verified i
  snapshot : t.snapshot = s.snapshot
  running : t.running = s.running
  integrityBl : s.integrityBl ⊆ t.integrityBl
  hashsetCache : t.hashsetCache = s.hashsetCache
  succeeds : ∀ n, t.phase = .ended (.ok n) → s.phase = .ended (.ok n)
  waits : t.phase.isEnded = false → s.pending ++ left ⊆ t.pending

private theorem settled_settleReady (unwritten : List Nat) (s : Scheduler) (r : Ready) :
    s.Settled (settleReady unwritten s r) (unsettled [r]) := by
  obtain ⟨block, src, result⟩ := r
  match result with
  | .ok true => exact ⟨fun _ h ↦ h, rfl, rfl, Finset.Subset.refl _, rfl, fun _ ↦ id, fun _ ↦ by
      simp [unsettled, isVerified, settleReady]⟩
  | .ok false =>
    have hrows : ∀ i, (s.rows.updateEd2kBlocks [(block, blockMissing, 0, true)]).Verified i →
        s.rows.Verified i := by
      intro i h
      rw [BlockRows.update_singleton, BlockRows.verified_put] at h
      split at h
      · exact absurd h (by decide)
      · exact h
    rw [settleReady]
    split
    · exact ⟨fun _ h ↦ h, rfl, rfl, Finset.Subset.refl _, rfl,
        (fun _ h ↦ by cases h), fun h ↦ by cases h⟩
    · dsimp only
      split
      · exact ⟨hrows, rfl, rfl, Finset.subset_insert _ _, rfl,
          (fun _ h ↦ by cases h), fun h ↦ by cases h⟩
      · exact ⟨hrows, rfl, rfl, Finset.subset_insert _ _, rfl,
          fun _ ↦ id, fun _ ↦ List.Subset.refl _⟩
  | .error e =>
    rw [settleReady]
    split
    · exact ⟨fun _ h ↦ h, rfl, rfl, Finset.Subset.refl _, rfl,
        (fun _ h ↦ by cases h), fun h ↦ by cases h⟩
    · dsimp only
      split
      · exact ⟨fun _ h ↦ h, rfl, rfl, Finset.Subset.refl _, rfl,
          fun _ ↦ id, fun _ ↦ List.Subset.refl _⟩
      · split
        · exact ⟨fun _ h ↦ h, rfl, rfl, Finset.subset_insert _ _, rfl,
            fun _ ↦ id, fun _ ↦ List.Subset.refl _⟩
        · exact ⟨fun _ h ↦ h, rfl, rfl, Finset.Subset.refl _, rfl,
            fun _ ↦ id, fun _ ↦ List.Subset.refl _⟩

private theorem unsettled_cons (r : Ready) (ready : List Ready) :
    unsettled (r :: ready) = unsettled [r] ++ unsettled ready := by
  change unsettled ([r] ++ ready) = _
  rw [unsettled, List.filter_append, List.map_append]
  rfl

private theorem settled_settleAll (unwritten : List Nat) (s : Scheduler) (ready : List Ready) :
    s.Settled (settleAll unwritten s ready) (unsettled ready) := by
  induction ready generalizing s with
  | nil => exact ⟨fun _ h ↦ h, rfl, rfl, Finset.Subset.refl _, rfl, fun _ ↦ id, fun _ ↦ by
      simp [unsettled, settleAll]⟩
  | cons r ready ih =>
    have hfirst := settled_settleReady unwritten s r
    unfold settleAll
    dsimp only
    split
    · next hended =>
      exact { hfirst with waits := fun hlive ↦ by rw [hended] at hlive; cases hlive }
    · next hlive =>
      rw [Bool.not_eq_true] at hlive
      have hrest := ih (settleReady unwritten s r)
      exact
        { rows := fun i h ↦ hfirst.rows i (hrest.rows i h)
          snapshot := hrest.snapshot.trans hfirst.snapshot
          running := hrest.running.trans hfirst.running
          integrityBl := Finset.Subset.trans hfirst.integrityBl hrest.integrityBl
          hashsetCache := hrest.hashsetCache.trans hfirst.hashsetCache
          succeeds := fun n h ↦ hfirst.succeeds n (hrest.succeeds n h)
          waits := fun hlive' ↦ by
            have hwaits := List.append_subset.mp (hrest.waits hlive')
            rw [unsettled_cons, ← List.append_assoc]
            exact List.append_subset.mpr
              ⟨List.Subset.trans (hfirst.waits hlive) hwaits.1, hwaits.2⟩ }

/-- The marks of what arrived were set, where the run goes on. -/
structure Published (file : Ed2kFile) (s t : Scheduler) (arrived : List Nat)
    (persist : PersistAnswers) : Prop where
  rows : ∀ i, t.rows.Verified i → s.rows.Verified i ∨ persist.synced = true ∧ i ∈ arrived
  marked : ∀ i, s.snapshot.Marked i → t.snapshot.Marked i
  arrived : t.phase.isEnded = false → ∀ i ∈ arrived, i < file.blockCount → t.snapshot.Marked i
  pending : t.pending = s.pending
  running : t.running = s.running
  integrityBl : t.integrityBl = s.integrityBl
  hashsetCache : t.hashsetCache = s.hashsetCache
  succeeds : ∀ n, t.phase = .ended (.ok n) → s.phase = .ended (.ok n)

private theorem published_publish (s : Scheduler) (h : s.snapshot.Counts file) (ready : List Ready)
    (persist : PersistAnswers) :
    Published file s (s.publish file ready persist) ((ready.filter isVerified).map Prod.fst)
      persist := by
  rcases publish_cases file s ready persist with ⟨hnone, heq⟩ | ⟨_, _, -, heq⟩ | ⟨hsynced, -, heq⟩
  · rw [heq]
    refine ⟨fun _ h ↦ .inl h, fun _ h ↦ h, fun _ i hi ↦ ?_, rfl, rfl, rfl, rfl, fun _ ↦ id⟩
    rw [← updates_blocks file, hnone] at hi
    cases hi
  · rw [heq]
    exact ⟨fun _ h ↦ .inl h, fun _ h ↦ h, (fun h ↦ by cases h), rfl, rfl, rfl, rfl,
      fun _ h ↦ by cases h⟩
  · rw [heq]
    have hmarked := (h.setAll ((ready.filter isVerified).map Prod.fst)).2
    refine ⟨fun i hi ↦ ?_, fun i hi ↦ (hmarked i).mpr (.inr hi),
      fun _ i hi hin ↦ (hmarked i).mpr (.inl ⟨hi, hin⟩), rfl, rfl, rfl, rfl, fun _ ↦ id⟩
    dsimp only at hi
    rw [BlockRows.verified_update fun b hb ↦ (mem_updates hb).1, updates_blocks] at hi
    split at hi
    · next harrived => exact .inr ⟨hsynced, harrived⟩
    · exact .inl hi

/-- What tasks that ended bring about. -/
structure Joined (file : Ed2kFile) (s t : Scheduler) (ends : List (Nat × BlockEnd))
    (persist : PersistAnswers) : Prop where
  rows : ∀ i, t.rows.Verified i → s.rows.Verified i ∨
    persist.synced = true ∧ i ∈ s.running.map Prod.fst ∧
      ∃ md4, (i, .done md4) ∈ ends ∧ s.checks file i md4 = true
  marked : ∀ i, s.snapshot.Marked i → t.snapshot.Marked i
  running : t.running ⊆ s.running
  integrityBl : s.integrityBl ⊆ t.integrityBl
  hashsetCache : t.hashsetCache = s.hashsetCache
  succeeds : ∀ n, t.phase ≠ .ended (.ok n)
  kept : t.phase.isEnded = false → ∀ i ∈ s.held,
    i ∈ t.held ∨ t.snapshot.Marked i ∨
      i ∈ s.running.map Prod.fst ∧ (i, .panicked) ∈ ends

/-- What a join leaves. -/
theorem joined_join {before : BlockRows} {s : Scheduler} (h : s.Sound hashPart file before [])
    (ends : List (Nat × BlockEnd)) (persist : PersistAnswers) (unwritten : List Nat) :
    Joined file s (s.join file ends persist unwritten) ends persist := by
  unfold join
  split
  · exact ⟨fun _ h ↦ .inl h, fun _ h ↦ h, fun _ h ↦ h, Finset.Subset.refl _, rfl,
      (fun _ h ↦ by cases h), fun h ↦ by cases h⟩
  · obtain ⟨lost, hperm, hlost, hdone⟩ := takeEnded_spec s.running ends
    generalize takeEnded s.running ends = taken at hperm hdone ⊢
    obtain ⟨running, joined⟩ := taken
    dsimp only at hperm hdone ⊢
    have hpublished := published_publish { s with running, phase := .filling } h.counts
      (joined.map (s.check file)) persist
    generalize publish file _ (joined.map (s.check file)) persist = t at hpublished ⊢
    have harrived : ∀ i ∈ ((joined.map (s.check file)).filter isVerified).map Prod.fst,
        i ∈ s.running.map Prod.fst ∧
          ∃ md4, (i, BlockEnd.done md4) ∈ ends ∧ s.checks file i md4 = true := by
      intro i hi
      obtain ⟨r, hr, rfl⟩ := List.mem_map.mp hi
      rw [List.mem_filter] at hr
      obtain ⟨⟨i, src, result⟩, htask, rfl⟩ := List.mem_map.mp hr.1
      obtain ⟨md4, hok, hchecks⟩ := checks_of_isVerified hr.2
      obtain rfl : result = .ok md4 := hok
      have hran : (i, src) ∈ s.running := by
        apply hperm.subset
        apply List.mem_append_right
        exact List.mem_append_left _ (List.mem_map.mpr ⟨_, htask, rfl⟩)
      exact ⟨List.mem_map.mpr ⟨_, hran, rfl⟩, md4, hdone i src md4 htask, hchecks⟩
    have hrows : ∀ i, t.rows.Verified i → s.rows.Verified i ∨
        persist.synced = true ∧ i ∈ s.running.map Prod.fst ∧
          ∃ md4, (i, .done md4) ∈ ends ∧ s.checks file i md4 = true := by
      intro i hi
      rcases hpublished.rows i hi with hold | ⟨hsynced, hnew⟩
      · exact .inl hold
      · exact .inr ⟨hsynced, harrived i hnew⟩
    have hsub : running ⊆ s.running := fun task htask ↦
      hperm.subset (List.mem_append_right _ (List.mem_append_right _ htask))
    split
    · next hended =>
      exact
        { rows := hrows
          marked := hpublished.marked
          running := hpublished.running ▸ hsub
          integrityBl := hpublished.integrityBl ▸ Finset.Subset.refl _
          hashsetCache := hpublished.hashsetCache
          succeeds := fun n h ↦ by cases hpublished.succeeds n h
          kept := fun hlive ↦ by rw [hended] at hlive; cases hlive }
    · next hlive =>
      rw [Bool.not_eq_true] at hlive
      have hsettled := settled_settleAll unwritten t (joined.map (s.check file))
      exact
        { rows := fun i hi ↦ hrows i (hsettled.rows i hi)
          marked := fun i hi ↦ hsettled.snapshot ▸ hpublished.marked i hi
          running := by
            rw [hsettled.running, hpublished.running]
            exact hsub
          integrityBl := hpublished.integrityBl ▸ hsettled.integrityBl
          hashsetCache := hsettled.hashsetCache.trans hpublished.hashsetCache
          succeeds := fun n h ↦ by cases hpublished.succeeds n (hsettled.succeeds n h)
          kept := fun hlive' i hi ↦ by
            have hwaits := List.append_subset.mp (hsettled.waits hlive')
            rcases List.mem_append.mp hi with hpending | hrun
            · left
              apply List.mem_append_left
              apply hwaits.1
              rw [hpublished.pending]
              exact hpending
            · obtain ⟨task, htask, rfl⟩ := List.mem_map.mp hrun
              rcases List.mem_append.mp (hperm.mem_iff.mpr htask) with hgone | htaken
              · exact .inr (.inr ⟨hrun, hlost task hgone⟩)
              · rcases List.mem_append.mp htaken with hended | hleft
                · obtain ⟨r, hr, rfl⟩ := List.mem_map.mp hended
                  have hready := List.mem_map_of_mem (f := s.check file) hr
                  by_cases hverified : isVerified (s.check file r) = true
                  · right
                    left
                    rw [hsettled.snapshot]
                    apply hpublished.arrived hlive _ _ (h.unmarked _ (List.mem_append_left _ hi)).1
                    exact List.mem_map.mpr ⟨_, List.mem_filter.mpr ⟨hready, hverified⟩,
                      check_block s r⟩
                  · left
                    apply List.mem_append_left
                    apply hwaits.2
                    exact List.mem_map.mpr ⟨_, List.mem_filter.mpr ⟨hready, by simp [hverified]⟩,
                      check_block s r⟩
                · left
                  apply List.mem_append_right
                  rw [hsettled.running, hpublished.running]
                  exact List.mem_map_of_mem hleft }

/-! ## Blacklisted sources -/

/-- A source that was blacklisted then has now no task that it did not have then. -/
def Barred (s t : Scheduler) : Prop :=
  s.integrityBl ⊆ t.integrityBl ∧ ∀ task ∈ t.running, task.2 ∈ s.integrityBl → task ∈ s.running

private theorem Barred.refl (s : Scheduler) : s.Barred s := ⟨Finset.Subset.refl _, fun _ h _ ↦ h⟩

/-- A barred source stays barred. -/
theorem Barred.trans {s t u : Scheduler} (hst : s.Barred t) (htu : t.Barred u) : s.Barred u :=
  ⟨Finset.Subset.trans hst.1 htu.1, fun task hrun hbarred ↦
    hst.2 task (htu.2 task hrun (hst.1 hbarred)) hbarred⟩

private theorem barred_of_same {s t : Scheduler} (hbl : t.integrityBl = s.integrityBl)
    (hrunning : t.running = s.running) : s.Barred t :=
  ⟨hbl ▸ Finset.Subset.refl _, fun _ h _ ↦ hrunning ▸ h⟩

private theorem barred_step {before : BlockRows} {s : Scheduler}
    (h : s.Sound hashPart file before [])
    (op : SchedulerOp) : s.Barred (s.step hashPart file op) := by
  rcases step_cases hashPart file s op with hquiet |
    ⟨block, hashes, -, heq⟩ | ⟨disk, hashsetRead, writes, loads, -, hphase, heq⟩ |
    ⟨-, new, hfilled⟩ | ⟨ends, persist, unwritten, -, -, heq⟩
  · exact barred_of_same hquiet.integrityBl hquiet.running
  · obtain ⟨cache, hanchor, -⟩ := anchor_eq hashPart file s block hashes
    rw [heq, hanchor]
    exact .refl s
  · rw [heq]
    have hstock := restocked_takeStock hashPart file hphase disk hashsetRead writes loads
    exact barred_of_same hstock.integrityBl hstock.running
  · refine ⟨hfilled.integrityBl ▸ Finset.Subset.refl _, fun task htask hbarred ↦ ?_⟩
    rw [hfilled.running] at htask
    rcases List.mem_append.mp htask with hold | hnew
    · exact hold
    · have husable := hfilled.usable task hnew
      simp [usable, hbarred] at husable
  · rw [heq]
    have hjoined := joined_join h ends persist unwritten
    exact ⟨hjoined.integrityBl, fun task htask _ ↦ hjoined.running htask⟩

/-! ## Blocks that get lost -/

/-- A task of the block panicked: it ran when tasks were joined, and left nothing. -/
def PanickedIn (hashPart : List UInt8 → Md4) (file : Ed2kFile) (s₀ : Scheduler)
    (ops : List SchedulerOp) (index : Nat) : Prop :=
  ∃ earlier ends persist unwritten later, ops = earlier ++ .join ends persist unwritten :: later ∧
    (run (step hashPart file) s₀ earlier).phase = .joining ∧
    index ∈ (run (step hashPart file) s₀ earlier).running.map Prod.fst ∧ (index, .panicked) ∈ ends

/-- Every block has its mark, waits, is fetched, or was lost with a task of it that panicked. -/
def Accounted (hashPart : List UInt8 → Md4) (file : Ed2kFile) (s₀ : Scheduler)
    (ops : List SchedulerOp) : Prop :=
  (run (step hashPart file) s₀ ops).phase.isInner = true → ∀ i < file.blockCount,
    (run (step hashPart file) s₀ ops).snapshot.Marked i ∨
      i ∈ (run (step hashPart file) s₀ ops).held ∨ PanickedIn hashPart file s₀ ops i

private theorem PanickedIn.concat {s₀ : Scheduler} {ops : List SchedulerOp} {i : Nat}
    (h : PanickedIn hashPart file s₀ ops i) (op : SchedulerOp) :
    PanickedIn hashPart file s₀ (ops ++ [op]) i := by
  obtain ⟨earlier, ends, persist, unwritten, later, rfl, hpanicked⟩ := h
  exact ⟨earlier, ends, persist, unwritten, later ++ [op], List.append_assoc _ _ _, hpanicked⟩

private theorem Accounted.step {before : BlockRows} {s₀ : Scheduler} {ops : List SchedulerOp}
    (h : (run (step hashPart file) s₀ ops).Sound hashPart file before [])
    (hacc : Accounted hashPart file s₀ ops) (op : SchedulerOp) :
    Accounted hashPart file s₀ (ops ++ [op]) := by
  unfold Accounted at hacc ⊢
  rw [run_concat]
  have hlost : ∀ {i}, PanickedIn hashPart file s₀ ops i →
      PanickedIn hashPart file s₀ (ops ++ [op]) i := fun h ↦ h.concat op
  have hpanics : ∀ {ends persist unwritten i}, op = .join ends persist unwritten →
      (run (Scheduler.step hashPart file) s₀ ops).phase = .joining →
      i ∈ (run (Scheduler.step hashPart file) s₀ ops).running.map Prod.fst →
      (i, .panicked) ∈ ends → PanickedIn hashPart file s₀ (ops ++ [op]) i := by
    rintro ends persist unwritten i rfl hphase hran hpanicked
    exact ⟨ops, ends, persist, unwritten, [], rfl, hphase, hran, hpanicked⟩
  generalize run (Scheduler.step hashPart file) s₀ ops = s at h hacc hpanics ⊢
  intro hinner i hi
  rcases step_cases hashPart file s op with hquiet |
    ⟨block, hashes, -, heq⟩ | ⟨disk, hashsetRead, writes, loads, -, hphase, heq⟩ |
    ⟨hphase, new, hfilled⟩ | ⟨ends, persist, unwritten, rfl, hphase, heq⟩
  · rw [hquiet.snapshot, held, hquiet.pending, hquiet.running]
    exact (hacc (hquiet.inner hinner) i hi).imp_right (.imp_right hlost)
  · obtain ⟨cache, hanchor, -⟩ := anchor_eq hashPart file s block hashes
    rw [heq, hanchor] at hinner ⊢
    exact (hacc hinner i hi).imp_right (.imp_right hlost)
  · rw [heq] at hinner ⊢
    have hstock := restocked_takeStock hashPart file hphase disk hashsetRead writes loads
    obtain ⟨hsnapshot, hpending⟩ := hstock.inner hinner
    by_cases hmarked : s.snapshot.Marked i
    · exact .inl (hsnapshot ▸ hmarked)
    · right
      left
      rw [held, hpending]
      exact List.mem_append_left _ (h.counts.mem_pending.mpr ⟨hi, hmarked⟩)
  · rw [hfilled.snapshot]
    refine (hacc hphase i hi).imp_right (.imp (fun hheld ↦ ?_) hlost)
    rw [held, hfilled.running, List.map_append]
    rcases List.mem_append.mp hheld with hpending | hrunning
    · rcases List.mem_append.mp (hfilled.pending.mem_iff.mpr hpending) with hwaits | hnew
      · exact List.mem_append_left _ hwaits
      · exact List.mem_append_right _ (List.mem_append_right _ hnew)
    · exact List.mem_append_right _ (List.mem_append_left _ hrunning)
  · rw [heq] at hinner ⊢
    have hjoined := joined_join h ends persist unwritten
    have hlive : (s.join file ends persist unwritten).phase.isEnded = false := by
      generalize (s.join file ends persist unwritten).phase = phase at hinner ⊢
      cases phase with
      | ended _ => cases hinner
      | _ => rfl
    have hfetching : s.phase.isInner = true := by rw [hphase]; rfl
    rcases hacc hfetching i hi with hmarked | hheld | hpanicked
    · exact .inl (hjoined.marked i hmarked)
    · rcases hjoined.kept hlive i hheld with hheld | hmarked | ⟨hran, hpanicked⟩
      · exact .inr (.inl hheld)
      · exact .inl hmarked
      · exact .inr (.inr (hpanics rfl hphase hran hpanicked))
    · exact .inr (.inr (hlost hpanicked))

section Runs

variable (hashPart : List UInt8 → Md4) (file : Ed2kFile) (segmentCount : Int) (rows : BlockRows)
  (storedHashset : Option (List UInt8)) (answers : PrepareAnswers)

/-- The state after these steps. -/
def after (ops : List SchedulerOp) : Scheduler :=
  run (step hashPart file) (start file segmentCount rows storedHashset answers) ops

/-- Every state of a run is sound. -/
theorem sound_after (ops : List SchedulerOp) :
    (after hashPart file segmentCount rows storedHashset answers ops).Sound hashPart file rows [] :=
  run_preserves (fun _ op h ↦ h.step op)
    (sound_start hashPart file segmentCount rows storedHashset answers) ops

private theorem accounted_after (ops : List SchedulerOp) :
    Accounted hashPart file (start file segmentCount rows storedHashset answers) ops := by
  induction ops using List.reverseRecOn with
  | nil =>
    intro hinner
    have hstart : (start file segmentCount rows storedHashset answers).phase.isInner = false := by
      unfold start
      dsimp only
      split
      · rfl
      · split
        · split
          · rfl
          · rfl
        · rfl
    rw [run_nil, hstart] at hinner
    cases hinner
  | append_singleton ops op ih =>
    exact ih.step (sound_after hashPart file segmentCount rows storedHashset answers ops) op

private theorem barred_after (ops : List SchedulerOp) {m n : Nat} (hmn : m ≤ n) :
    (after hashPart file segmentCount rows storedHashset answers (ops.take m)).Barred
      (after hashPart file segmentCount rows storedHashset answers (ops.take n)) := by
  have hevery : EveryStep (step hashPart file) (fun _ _ ↦ True)
      (start file segmentCount rows storedHashset answers) ops :=
    EveryStep.of_forall_mem (fun _ _ _ ↦ trivial) _
  have hsound : ∀ (s : Scheduler) op, s.Sound hashPart file rows [] → True →
      (s.step hashPart file op).Sound hashPart file rows [] := fun _ op h _ ↦ h.step op
  exact run_related_take Barred.refl Barred.trans hsound (fun _ op h _ ↦ barred_step h op)
    (sound_start hashPart file segmentCount rows storedHashset answers) hevery hmn

/-- From whatever rows an earlier download left and whatever peers, sources, disk and database
answer, at every moment of a run: a block waits, is fetched by one task or has its mark, in memory
as in the database, and no two tasks write one byte; the bytes counted are those of the marks and
no more than the file has; slots, rounds and searches are bounded, a block is tried a bounded
number of times and its row counts them; a hashset that is used belongs to the root and is the
one that is stored; no block gets lost unless a task of it panics; and a source that is blacklisted is
given no block from then on. -/
theorem scheduler_safe (ops : List SchedulerOp) :
    (∀ n, (after hashPart file segmentCount rows storedHashset answers (ops.take n)).Sound
          hashPart file rows [] ∧
        ((after hashPart file segmentCount rows storedHashset answers (ops.take n)).running.Pairwise
          fun a b ↦ (file.span a.1).2 ≤ (file.span b.1).1 ∨
            (file.span b.1).2 ≤ (file.span a.1).1) ∧
        (after hashPart file segmentCount rows storedHashset answers
          (ops.take n)).snapshot.verifiedBytes ≤ file.totalBytes ∧
        Accounted hashPart file (start file segmentCount rows storedHashset answers)
          (ops.take n)) ∧
      ∀ m n, m ≤ n →
        (after hashPart file segmentCount rows storedHashset answers (ops.take m)).Barred
          (after hashPart file segmentCount rows storedHashset answers (ops.take n)) := by
  refine ⟨fun n ↦ ?_, fun m n hmn ↦ barred_after _ _ _ _ _ _ ops hmn⟩
  have hsound := sound_after hashPart file segmentCount rows storedHashset answers (ops.take n)
  refine ⟨hsound, ?_, hsound.counts.le_totalBytes.2, accounted_after _ _ _ _ _ _ _⟩
  have hnodup : ((after hashPart file segmentCount rows storedHashset answers
      (ops.take n)).running.map Prod.fst).Nodup :=
    (List.Nodup.of_append_left hsound.nodup).of_append_right
  refine (List.pairwise_map.mp hnodup).imp_of_mem fun {a b} ha hb hne ↦ ?_
  have hin : ∀ task ∈ (after hashPart file segmentCount rows storedHashset answers
      (ops.take n)).running, task.1 < file.blockCount := fun task htask ↦
    (hsound.unmarked task.1 (List.mem_append_left _ (List.mem_append_right _
      (List.mem_map_of_mem htask)))).1
  rcases Nat.lt_or_gt_of_ne hne with hlt | hlt
  · exact .inl (Ed2kFile.span_disjoint (hin a ha) (hin b hb) hlt)
  · exact .inr (Ed2kFile.span_disjoint (hin b hb) (hin a ha) hlt)

end Runs

end Scheduler

end Ed2k
