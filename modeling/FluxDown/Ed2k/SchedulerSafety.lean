import FluxDown.Ed2k.Scheduler

/-!
# What the scheduler keeps

Library `Ed2k`. A block is in one place: it waits, one task fetches it, or it is marked, in memory
and in the database. What is counted agrees with it, and a source that is blacklisted is not
asked again.
-/

namespace Ed2k

open Base

namespace Scheduler

variable {hashPart : List UInt8 → Md4} {file : Ed2kFile}

/-- The blocks that wait or are fetched. -/
def held (s : Scheduler) : List Nat := s.pending ++ s.running.map Prod.fst

/-- What holds of a scheduler that has still to settle the blocks `left`; `before` are the rows
that the download found. -/
structure Sound (hashPart : List UInt8 → Md4) (file : Ed2kFile) (before : BlockRows)
    (left : List Nat) (s : Scheduler) : Prop where
  counts : s.snapshot.Counts file
  nodup : (s.held ++ left).Nodup
  unmarked : ∀ i ∈ s.held ++ left, i < file.blockCount ∧ ¬ s.snapshot.Marked i
  idle : s.phase = .outer → s.held = []
  slots : s.running.length ≤ s.concurrency ∧ s.concurrency ≤ maxEd2kConcurrency
  rows : s.phase.isEnded = false →
    ∀ i, s.snapshot.Marked i ↔ i < file.blockCount ∧ s.rows.Verified i
  retries : ∀ i, s.rows.retries i = before.retries i + s.strikes i
  strikes : ∀ i, s.strikes i ≤ blockMaxRetries ∧
    (s.strikes i = blockMaxRetries → s.phase.isEnded = true)
  rounds : s.finalizeRetries ≤ finalizeMaxRetries
  searches : s.sourceRetries ≤ maxSourceRetries ∧
    (s.sourceRetries = maxSourceRetries → s.phase.isEnded = true)
  anchored : ∀ hashes ∈ s.hashsetCache, hashes.length = file.blockCount ∧
    (∀ h ∈ hashes, h.length = 16) ∧
      computeRoot hashPart (buildRootInput hashes file.totalBytes file.partSize) = file.rootHash
  stored : s.hashsetPersisted = true → file.isSingle = false →
    ∃ hashes ∈ s.hashsetCache, s.storedHashset = some hashes.flatten

section Steps

variable {before : BlockRows} {left : List Nat} {s : Scheduler}

/-- A run that is over. -/
theorem Sound.fail (h : s.Sound hashPart file before left) (e : RunError) :
    (s.fail e).Sound hashPart file before left :=
  { h with
    idle := fun hphase ↦ by cases hphase
    rows := fun hphase ↦ by cases hphase
    strikes := fun i ↦ ⟨(h.strikes i).1, fun _ ↦ rfl⟩
    searches := ⟨h.searches.1, fun _ ↦ rfl⟩ }

/-- Going on to another part of the loop. -/
theorem Sound.go (h : s.Sound hashPart file before left) {phase : SchedulerPhase}
    (hlive : s.phase.isEnded = false) (hphase : phase = .outer → s.held = []) :
    { s with phase }.Sound hashPart file before left :=
  { h with
    idle := hphase
    rows := fun _ ↦ h.rows hlive
    strikes := fun i ↦ ⟨(h.strikes i).1, fun hmax ↦ by simp [(h.strikes i).2 hmax] at hlive⟩
    searches := ⟨h.searches.1, fun hmax ↦ by simp [h.searches.2 hmax] at hlive⟩ }

/-- Blocks change their places, or get lost. -/
theorem Sound.move (h : s.Sound hashPart file before left) {pending : List Nat}
    {running : List (Nat × Source)} {left' : List Nat}
    (hsub : (pending ++ running.map Prod.fst ++ left').Subperm (s.held ++ left))
    (hslots : running.length ≤ s.concurrency) (hphase : s.phase ≠ .outer) :
    { s with pending, running }.Sound hashPart file before left' := by
  obtain ⟨kept, hperm, hsublist⟩ := hsub
  exact
    { h with
      nodup := hperm.nodup_iff.mp (h.nodup.sublist hsublist)
      unmarked := fun i hi ↦ h.unmarked i (hsublist.subset (hperm.mem_iff.mpr hi))
      idle := fun hidle ↦ absurd hidle hphase
      slots := ⟨hslots, h.slots.2⟩ }

/-- Nothing is left to be settled. -/
theorem Sound.forget (h : s.Sound hashPart file before left) :
    s.Sound hashPart file before [] where
  __ := h
  nodup := by
    rw [List.append_nil]
    exact h.nodup.sublist (List.sublist_append_left _ _)
  unmarked i hi := h.unmarked i (List.append_subset.mpr
    ⟨List.subset_append_left _ _, List.nil_subset _⟩ hi)

end Steps

/-! ## Filling slots -/

private theorem usable_of_pickSource {sources : List Source} {usable : Source → Bool}
    {src : Source} :
    ∀ {tries roundRobin next : Nat},
      pickSource sources usable tries roundRobin = (some src, next) → usable src = true
  | 0, _, _, h => by cases h
  | tries + 1, roundRobin, next, h => by
    unfold pickSource at h
    dsimp only at h
    split at h
    · cases h
    · split at h
      · next husable =>
        cases h
        exact husable
      · exact usable_of_pickSource h

private theorem pickBlock_eq_some {s : Scheduler} {blocks : List Nat}
    {start pos roundRobin next : Nat}
    {src : Source} (h : s.pickBlock blocks start roundRobin = (some (pos, src), next)) :
    ∃ k block, pos = start + k ∧ blocks[k]? = some block ∧ s.usable block src = true := by
  induction blocks generalizing start roundRobin with
  | nil => cases h
  | cons block blocks ih =>
    unfold pickBlock at h
    split at h
    · next hpicked =>
      cases h
      exact ⟨0, block, rfl, rfl, usable_of_pickSource hpicked⟩
    · obtain ⟨k, block', rfl, hblock', husable⟩ := ih h
      exact ⟨k + 1, block', by omega, hblock', husable⟩

/-- Filling slots moves blocks from those that wait to tasks with usable sources. -/
theorem fillSlots_eq (fuel : Nat) (s : Scheduler) : ∃ roundRobin pending new,
    fillSlots fuel s = { s with roundRobin, pending, running := s.running ++ new } ∧
      (pending ++ new.map Prod.fst).Perm s.pending ∧
      (∀ task ∈ new, s.usable task.1 task.2 = true) ∧
      (s.running.length ≤ s.concurrency → (s.running ++ new).length ≤ s.concurrency) := by
  have hstay : ∀ (s : Scheduler) (roundRobin : Nat), ∃ roundRobin' pending new,
      { s with roundRobin } = ({ s with
        roundRobin := roundRobin', pending, running := s.running ++ new } : Scheduler) ∧
      (pending ++ new.map Prod.fst).Perm s.pending ∧
      (∀ task ∈ new, s.usable task.1 task.2 = true) ∧
      (s.running.length ≤ s.concurrency → (s.running ++ new).length ≤ s.concurrency) := by
    intro s roundRobin
    refine ⟨roundRobin, s.pending, [], by rw [List.append_nil], by simp, by simp, by simp⟩
  induction fuel generalizing s with
  | zero => exact hstay s s.roundRobin
  | succ fuel ih =>
    unfold fillSlots
    split
    · next hfree =>
      split
      · exact hstay s _
      · next pos src roundRobin hpicked =>
        obtain ⟨k, block, rfl, hblock, husable⟩ := pickBlock_eq_some hpicked
        rw [Nat.zero_add]
        have hget : s.pending[k]? = some block := by
          rw [List.getElem?_take] at hblock
          split at hblock
          · exact hblock
          · cases hblock
        rw [hget]
        obtain ⟨roundRobin', pending, new, heq, hperm, hnew, hslots⟩ := ih { s with
          roundRobin
          pending := s.pending.eraseIdx k
          running := s.running ++ [(block, src)] }
        refine ⟨roundRobin', pending, (block, src) :: new, ?_, ?_, ?_, fun _ ↦ ?_⟩
        · dsimp only
          rw [heq]
          simp
        · have herase : (block :: s.pending.eraseIdx k).Perm s.pending := by
            obtain ⟨hk, rfl⟩ := List.getElem?_eq_some_iff.mp hget
            exact List.getElem_cons_eraseIdx_perm hk
          rw [List.map_cons]
          exact List.perm_middle.trans ((hperm.cons block).trans herase)
        · intro task htask
          rcases List.mem_cons.mp htask with rfl | htask
          · exact husable
          · exact hnew task htask
        · rw [List.append_cons]
          apply hslots
          rw [List.length_append, List.length_singleton]
          exact hfree.1
    · exact hstay s s.roundRobin

/-- Filling slots keeps the state sound. -/
theorem Sound.fill {before : BlockRows} {s : Scheduler} (h : s.Sound hashPart file before [])
    (hphase : s.phase = .filling) : s.fill.Sound hashPart file before [] := by
  unfold Scheduler.fill
  split
  · exact h.fail _
  · obtain ⟨roundRobin, pending, new, heq, hperm, -, hslots⟩ := fillSlots_eq s.pending.length s
    rw [heq]
    have hheld : (pending ++ (s.running ++ new).map Prod.fst).Perm s.held := by
      rw [List.map_append]
      refine .trans ?_ (hperm.append_right _)
      rw [List.append_assoc]
      exact List.perm_append_comm.append_left _
    have hlive : s.phase.isEnded = false := by rw [hphase]; rfl
    have hturn : Sound hashPart file before [] { s with roundRobin } := { h with }
    have hfilled := hturn.move (hheld.append_right []).subperm (hslots h.slots.1)
      (by rw [hphase]; exact fun h ↦ by cases h)
    dsimp only
    split
    · next hnone =>
      split
      · next hempty =>
        apply hfilled.go hlive
        intro _
        simp only [held, hnone, hempty, List.map_nil, List.append_nil]
      · exact hfilled.go hlive fun h ↦ by cases h
    · exact hfilled.go hlive fun h ↦ by cases h

/-! ## Asking for sources -/

/-- Taking sources in keeps the state sound. -/
theorem Sound.settle {before : BlockRows} {s : Scheduler} (h : s.Sound hashPart file before [])
    (hphase : s.phase = .finding) (merged : List Source) (statusWritten : Bool) :
    (find.settle s statusWritten merged).Sound hashPart file before [] := by
  have hlive : s.phase.isEnded = false := by rw [hphase]; rfl
  have hbound : s.sourceRetries < maxSourceRetries := by
    refine Nat.lt_of_le_of_ne h.searches.1 fun hmax ↦ ?_
    simp [h.searches.2 hmax] at hlive
  unfold find.settle
  dsimp only
  split
  · have hfound : Sound hashPart file before [] { s with
        sources := merged.filter (· ∉ s.integrityBl), backoff := ∅, lacks := ∅
        sourceRetries := 0 } :=
      { h with
        searches := ⟨Nat.zero_le _, fun hmax ↦ absurd hmax (by decide : 0 ≠ maxSourceRetries)⟩ }
    exact hfound.go hlive fun h ↦ by cases h
  · split
    · next hmax =>
      exact
        { h.fail _ with searches := ⟨by exact hbound, fun _ ↦ rfl⟩ }
    · next hmax =>
      have hretry : Sound hashPart file before [] { s with
          sourceRetries := s.sourceRetries + 1 } :=
        { h with searches := ⟨hbound, fun heq ↦ absurd heq.ge hmax⟩ }
      split
      · exact hretry.fail _
      · exact hretry.go hlive fun h ↦ by cases h

/-- A search keeps the state sound. -/
theorem Sound.find {before : BlockRows} {s : Scheduler} (h : s.Sound hashPart file before [])
    (hphase : s.phase = .finding) (config : Bool) (server : Option (List Source))
    (kad : KadAnswer) (statusWritten : Bool) :
    (s.find config server kad statusWritten).Sound hashPart file before [] := by
  unfold Scheduler.find
  split
  · exact h.fail _
  · split
    · exact h.fail _
    · split
      · exact h.fail _
      · exact h.settle hphase _ _
      · exact h.settle hphase _ _

/-- Waking keeps the state sound. -/
theorem Sound.wake {before : BlockRows} {s : Scheduler} (h : s.Sound hashPart file before [])
    (hphase : s.phase = .sleeping) : s.wake.Sound hashPart file before [] := by
  unfold Scheduler.wake
  split
  · exact h.fail _
  · exact h.go (by rw [hphase]; rfl) fun h ↦ by cases h

/-- A hashset that is kept belongs to the root. -/
theorem Sound.anchor {before : BlockRows} {s : Scheduler} (h : s.Sound hashPart file before [])
    (block : Nat) (hashes : List Digest) :
    (s.anchor hashPart file block hashes).Sound hashPart file before [] := by
  unfold Scheduler.anchor
  split
  · next hfirst =>
    refine { h with anchored := fun kept hkept ↦ ?_, stored := fun hpersisted hmany ↦ ?_ }
    · obtain ⟨hcount, hsame, hroot⟩ := normalizeHashset_eq_some.mp hkept
      refine ⟨hcount, fun digest hdigest ↦ ?_, hroot⟩
      have hmem : digest ∈ hashes.map Subtype.val := by
        rcases hsame with hsame | ⟨-, hsame⟩
        · exact hsame ▸ hdigest
        · exact hsame ▸ List.mem_append_left _ hdigest
      obtain ⟨d, -, rfl⟩ := List.mem_map.mp hmem
      exact d.2
    · obtain ⟨kept, hkept, -⟩ := h.stored hpersisted hmany
      rw [hfirst.1] at hkept
      cases hkept
  · exact h

/-! ## Tasks that end -/

/-- The blocks of tasks that ended without their block. -/
def unsettled (ready : List Ready) : List Nat :=
  (ready.filter fun r ↦ !isVerified r).map Prod.fst

/-- The tasks that ended ran; those that leave nothing panicked. -/
theorem takeEnded_spec (running : List (Nat × Source)) (ends : List (Nat × BlockEnd)) : ∃ lost,
    (lost ++ ((takeEnded running ends).2.map (fun r ↦ (r.1, r.2.1)) ++
      (takeEnded running ends).1)).Perm running ∧
    (∀ task ∈ lost, (task.1, BlockEnd.panicked) ∈ ends) ∧
    ∀ i src md4, (i, src, .ok md4) ∈ (takeEnded running ends).2 → (i, .done md4) ∈ ends := by
  induction ends generalizing running with
  | nil => exact ⟨[], .refl _, by simp, by simp [takeEnded]⟩
  | cons first ends ih =>
    obtain ⟨block, result⟩ := first
    unfold takeEnded
    cases hfound : running.find? (·.1 = block) with
    | none =>
      obtain ⟨lost, hperm, hlost, hdone⟩ := ih running
      exact ⟨lost, hperm, fun task htask ↦ List.mem_cons_of_mem _ (hlost task htask),
        fun i src md4 hmem ↦ List.mem_cons_of_mem _ (hdone i src md4 hmem)⟩
    | some task =>
      have hblock : task.1 = block := by simpa using List.find?_some hfound
      have herase := List.perm_cons_erase (List.mem_of_find?_eq_some hfound)
      obtain ⟨lost, hperm, hlost, hdone⟩ := ih (running.erase task)
      have hlost' : ∀ t ∈ lost, (t.1, BlockEnd.panicked) ∈ (block, result) :: ends :=
        fun t ht ↦ List.mem_cons_of_mem _ (hlost t ht)
      have hdone' : ∀ i src md4, (i, src, .ok md4) ∈ (takeEnded (running.erase task) ends).2 →
          (i, BlockEnd.done md4) ∈ (block, result) :: ends :=
        fun i src md4 hmem ↦ List.mem_cons_of_mem _ (hdone i src md4 hmem)
      have hback : ∀ result : Except DownloadError Md4, (lost ++
          (((task.1, task.2, result) :: (takeEnded (running.erase task) ends).2).map
            (fun r ↦ (r.1, r.2.1)) ++ (takeEnded (running.erase task) ends).1)).Perm running := by
        intro result
        rw [List.map_cons, List.cons_append]
        exact List.perm_middle.trans ((hperm.cons task).trans herase.symm)
      cases result with
      | done md4 =>
        refine ⟨lost, hback _, hlost', fun i src md4' hmem ↦ ?_⟩
        rcases List.mem_cons.mp hmem with heq | hmem
        · cases heq
          rw [hblock]
          exact List.mem_cons_self
        · exact hdone' i src md4' hmem
      | failed e =>
        refine ⟨lost, hback _, hlost', fun i src md4 hmem ↦ ?_⟩
        rcases List.mem_cons.mp hmem with heq | hmem
        · cases heq
        · exact hdone' i src md4 hmem
      | panicked =>
        refine ⟨task :: lost, (hperm.cons task).trans herase.symm, fun t ht ↦ ?_, hdone'⟩
        rcases List.mem_cons.mp ht with rfl | ht
        · rw [hblock]
          exact List.mem_cons_self
        · exact hlost' t ht

section Settle

variable {before : BlockRows} {s : Scheduler} {ready : List Ready}

/-- The rows that are written are verified and count no retry. -/
theorem mem_updates {b : Nat × Int × Int × Bool} (hb : b ∈ updates file ready) :
    b.2.1 = blockVerified ∧ b.2.2.2 = false := by
  obtain ⟨r, -, rfl⟩ := List.mem_map.mp hb
  exact ⟨rfl, rfl⟩

/-- The rows that are written are those of the verified blocks. -/
theorem updates_blocks (file : Ed2kFile) (ready : List Ready) :
    (updates file ready).map Prod.fst = (ready.filter isVerified).map Prod.fst := by
  rw [updates, List.map_map]
  rfl

/-- A block that arrived is not one that has to be settled. -/
theorem not_mem_unsettled (hnodup : (ready.map Prod.fst).Nodup) {i : Nat}
    (hi : i ∈ (ready.filter isVerified).map Prod.fst) : i ∉ unsettled ready := by
  intro hopen
  obtain ⟨r, hr, rfl⟩ := List.mem_map.mp hi
  obtain ⟨r', hr', heq⟩ := List.mem_map.mp hopen
  rw [List.mem_filter] at hr hr'
  rw [List.inj_on_of_nodup_map hnodup hr'.1 hr.1 heq, hr.2] at hr'
  simp at hr'

/-- Persisting fails, perhaps with the hashset saved, or all of it is done. -/
theorem persistVerifiedBlocks_cases (s : Scheduler) (blocks : List (Nat × Int × Int × Bool))
    (hashset : Option (List Md4)) (persist : PersistAnswers) :
    (∃ storedHashset e, (hashset = none → storedHashset = s.storedHashset) ∧
      s.persistVerifiedBlocks blocks hashset persist = ({ s with storedHashset }, some e)) ∨
    persist.synced = true ∧ s.persistVerifiedBlocks blocks hashset persist =
      ({ s with
        storedHashset := (hashset.map List.flatten).or s.storedHashset
        rows := s.rows.updateEd2kBlocks blocks }, none) := by
  unfold persistVerifiedBlocks
  split
  · exact .inl ⟨s.storedHashset, .io, fun _ ↦ rfl, rfl⟩
  · next hsynced =>
    split
    · exact .inl ⟨s.storedHashset, .db, fun _ ↦ rfl, rfl⟩
    · cases hashset with
      | none =>
        dsimp only
        split
        · exact .inl ⟨s.storedHashset, .db, fun _ ↦ rfl, rfl⟩
        · exact .inr ⟨by simpa using hsynced, rfl⟩
      | some hashes =>
        dsimp only
        split
        · exact .inl ⟨some hashes.flatten, .db, (fun h ↦ by cases h), rfl⟩
        · exact .inr ⟨by simpa using hsynced, rfl⟩

/-- Publishing does nothing, ends the run, or marks what arrived. -/
theorem publish_cases (file : Ed2kFile) (s : Scheduler) (ready : List Ready)
    (persist : PersistAnswers) :
    updates file ready = [] ∧ s.publish file ready persist = s ∨
    (∃ storedHashset e, (s.hashsetPersisted = true → storedHashset = s.storedHashset) ∧
      s.publish file ready persist = { s with storedHashset }.fail e) ∨
    persist.synced = true ∧ updates file ready ≠ [] ∧ s.publish file ready persist =
      { s with
        storedHashset := ((if file.isSingle = true ∨ s.hashsetPersisted = true then none
          else s.hashsetCache).map List.flatten).or s.storedHashset
        rows := s.rows.updateEd2kBlocks (updates file ready)
        hashsetPersisted := true
        snapshot := ((ready.filter isVerified).map Prod.fst).foldl
          (fun snapshot i ↦ snapshot.setVerified file i true) s.snapshot } := by
  unfold publish
  dsimp only
  split
  · next hnone => exact .inl ⟨hnone, rfl⟩
  · next hsome =>
    rcases persistVerifiedBlocks_cases s (updates file ready)
        (if file.isSingle = true ∨ s.hashsetPersisted = true then none else s.hashsetCache)
        persist with ⟨storedHashset, e, hsame, heq⟩ | ⟨hsynced, heq⟩
    · rw [heq]
      exact .inr (.inl ⟨storedHashset, e, fun h ↦ hsame (if_pos (.inr h)), rfl⟩)
    · rw [heq]
      refine .inr (.inr ⟨hsynced, hsome, ?_⟩)
      rw [← updates_blocks file, List.foldl_map]

/-- Marks are set in memory where they were in the database. -/
theorem Sound.publish (h : s.Sound hashPart file before (ready.map Prod.fst))
    (hphase : s.phase = .filling)
    (hcache : ∀ r ∈ ready, isVerified r = true → file.isSingle = false → s.hashsetCache ≠ none)
    (persist : PersistAnswers) :
    (s.publish file ready persist).Sound hashPart file before (unsettled ready) := by
  have hlive : s.phase.isEnded = false := by rw [hphase]; rfl
  have hsub : (s.pending ++ s.running.map Prod.fst ++ unsettled ready).Subperm
      (s.held ++ ready.map Prod.fst) :=
    ((List.filter_sublist.map _).append_left _).subperm
  have hopen := h.move hsub h.slots.1 (by rw [hphase]; exact fun h ↦ by cases h)
  rcases publish_cases file s ready persist with ⟨-, heq⟩ | ⟨stored, e, hstored, heq⟩ |
    ⟨-, hsome, heq⟩
  · rw [heq]
    exact hopen
  · rw [heq]
    have hsaved : Sound hashPart file before (unsettled ready) { s with storedHashset := stored } :=
      { hopen with
        stored := fun hpersisted ↦ by
          rw [hstored hpersisted]
          exact hopen.stored hpersisted }
    exact hsaved.fail e
  · rw [heq]
    obtain ⟨hcounts, hmarked⟩ := h.counts.setAll ((ready.filter isVerified).map Prod.fst)
    exact
      { hopen with
        counts := hcounts
        unmarked := by
          intro i hi
          obtain ⟨hin, hclear⟩ := hopen.unmarked i hi
          refine ⟨hin, fun hmark ↦ ?_⟩
          rcases (hmarked i).mp hmark with ⟨harrived, -⟩ | hmark
          · have hready := List.filter_sublist.map Prod.fst |>.subset harrived
            rcases List.mem_append.mp hi with hheld | hleft
            · exact List.disjoint_of_nodup_append h.nodup hheld hready
            · exact not_mem_unsettled (List.Nodup.of_append_right h.nodup) harrived hleft
          · exact hclear hmark
        rows := by
          intro _ i
          rw [hmarked, BlockRows.verified_update fun b hb ↦ (mem_updates hb).1, updates_blocks,
            h.rows hlive]
          split
          · next harrived =>
            constructor
            · rintro (⟨-, hin⟩ | ⟨hin, -⟩)
              · exact ⟨hin, rfl⟩
              · exact ⟨hin, rfl⟩
            · rintro ⟨hin, -⟩
              exact .inl ⟨harrived, hin⟩
          · next hother => exact or_iff_right fun h ↦ hother h.1
        retries := by
          intro i
          change BlockRows.retries (BlockRows.updateEd2kBlocks _ _) i = _
          rw [BlockRows.retries_update fun b hb ↦ (mem_updates hb).2]
          exact h.retries i
        stored := by
          intro _ hmany
          have harrived : ready.filter isVerified ≠ [] := by
            intro hnone
            apply hsome
            rw [updates, hnone, List.map_nil]
          obtain ⟨r, hr⟩ := List.exists_mem_of_ne_nil _ harrived
          rw [List.mem_filter] at hr
          obtain ⟨hashes, hhashes⟩ := Option.ne_none_iff_exists'.mp (hcache r hr.1 hr.2 hmany)
          refine ⟨hashes, hhashes, ?_⟩
          by_cases hpersisted : s.hashsetPersisted = true
          · obtain ⟨kept, hkept, hstored⟩ := h.stored hpersisted hmany
            rw [hhashes] at hkept
            cases hkept
            simpa [hpersisted] using hstored
          · simp [hpersisted, hmany, hhashes] }

/-- A block that did not match waits again, and it is counted. -/
theorem Sound.strike {block : Nat} {left : List Nat}
    (h : s.Sound hashPart file before (block :: left)) (hphase : s.phase = .filling)
    (src : Source) {phase : SchedulerPhase}
    (hnext : phase.isEnded = true ∨ phase = .filling ∧ s.strikes block + 1 < blockMaxRetries) :
    { s with
      rows := s.rows.updateEd2kBlocks [(block, blockMissing, 0, true)]
      pending := s.pending ++ [block]
      strikes := Function.update s.strikes block (s.strikes block + 1)
      integrityBl := insert src s.integrityBl
      phase }.Sound hashPart file before left := by
  have hlive : s.phase.isEnded = false := by rw [hphase]; rfl
  have hbound : ∀ i, s.strikes i < blockMaxRetries := by
    intro i
    refine Nat.lt_of_le_of_ne (h.strikes i).1 fun hmax ↦ ?_
    simp [(h.strikes i).2 hmax] at hlive
  have hsub : (s.pending ++ [block] ++ s.running.map Prod.fst ++ left).Perm
      (s.held ++ block :: left) := by
    simp only [held, List.append_assoc, List.singleton_append]
    exact (List.perm_middle.symm).append_left _
  have hback := h.move hsub.subperm h.slots.1 (by rw [hphase]; exact fun h ↦ by cases h)
  have hclear := (h.unmarked block (by simp)).2
  exact
    { hback with
      idle := fun hidle ↦ by
        rcases hnext with hended | ⟨rfl, -⟩
        · rw [show phase = .outer from hidle] at hended
          cases hended
        · cases hidle
      rows := by
        intro _ i
        dsimp only
        rw [BlockRows.update_singleton, BlockRows.verified_put, h.rows hlive]
        split
        · next heq =>
          rw [heq, ← h.rows hlive]
          exact iff_of_false hclear fun hmark ↦ absurd hmark.2 (by decide)
        · rfl
      retries := by
        intro i
        dsimp only
        rw [BlockRows.update_singleton, BlockRows.retries_put, h.retries, Function.update_apply]
        by_cases hi : i = block
        · subst hi
          simp only [and_self, if_true]
          omega
        · simp [hi]
      strikes := by
        intro i
        dsimp only
        rw [Function.update_apply]
        split
        · refine ⟨hbound block, fun hmax ↦ ?_⟩
          rcases hnext with hended | ⟨-, hless⟩
          · exact hended
          · omega
        · exact ⟨(hbound i).le, fun hmax ↦ absurd hmax (hbound i).ne⟩
      searches := ⟨h.searches.1, fun hmax ↦ by simp [h.searches.2 hmax] at hlive⟩ }

/-- One task settled. -/
theorem Sound.settleReady {r : Ready} (h : s.Sound hashPart file before (unsettled (r :: ready)))
    (hphase : s.phase = .filling) (unwritten : List Nat) :
    (settleReady unwritten s r).Sound hashPart file before (unsettled ready) ∧
      ((settleReady unwritten s r).phase = .filling ∨
        (settleReady unwritten s r).phase.isEnded = true) := by
  obtain ⟨block, src, result⟩ := r
  match result with
  | .ok true => exact ⟨h, .inl hphase⟩
  | .ok false =>
    change s.Sound hashPart file before (block :: unsettled ready) at h
    have hrest : s.Sound hashPart file before (unsettled ready) := by
      apply h.move _ h.slots.1 (by rw [hphase]; exact fun h ↦ by cases h)
      exact ((List.sublist_cons_self block _).append_left _).subperm
    rw [Scheduler.settleReady]
    split
    · exact ⟨hrest.fail _, .inr rfl⟩
    · dsimp only
      split
      · exact ⟨h.strike hphase src (.inl rfl), .inr rfl⟩
      · next hless =>
        rw [Function.update_self, not_le] at hless
        have hstruck := h.strike hphase src (.inr ⟨rfl, hless⟩)
        rw [← hphase] at hstruck
        exact ⟨hstruck, .inl hphase⟩
  | .error e =>
    change s.Sound hashPart file before (block :: unsettled ready) at h
    have hsub : (s.pending ++ [block] ++ s.running.map Prod.fst ++ unsettled ready).Perm
        (s.held ++ block :: unsettled ready) := by
      simp only [held, List.append_assoc, List.singleton_append]
      exact (List.perm_middle.symm).append_left _
    have hback := h.move hsub.subperm h.slots.1 (by rw [hphase]; exact fun h ↦ by cases h)
    have hrest : s.Sound hashPart file before (unsettled ready) := by
      apply h.move _ h.slots.1 (by rw [hphase]; exact fun h ↦ by cases h)
      exact ((List.sublist_cons_self block _).append_left _).subperm
    rw [Scheduler.settleReady]
    split
    · exact ⟨hrest.fail _, .inr rfl⟩
    · dsimp only
      split
      · exact ⟨{ hback with }, .inl hphase⟩
      · split
        · exact ⟨{ hback with }, .inl hphase⟩
        · exact ⟨{ hback with }, .inl hphase⟩

/-- Settling the blocks that are ready keeps the state sound. -/
theorem Sound.settleAll (h : s.Sound hashPart file before (unsettled ready))
    (hphase : s.phase = .filling) (unwritten : List Nat) :
    (settleAll unwritten s ready).Sound hashPart file before [] := by
  induction ready generalizing s with
  | nil => exact h
  | cons r ready ih =>
    obtain ⟨hsound, hphase'⟩ := h.settleReady hphase unwritten
    unfold Scheduler.settleAll
    dsimp only
    split
    · exact hsound.forget
    · next hlive =>
      rcases hphase' with hphase' | hended
      · exact ih hsound hphase'
      · exact absurd hended hlive

end Settle

/-- A check is of the block that ended. -/
theorem check_block (s : Scheduler) (r : Nat × Source × Except DownloadError Md4) :
    (s.check file r).1 = r.1 := by
  obtain ⟨i, src, md4 | e⟩ := r
  · rfl
  · rfl

private theorem map_check (s : Scheduler)
    (joined : List (Nat × Source × Except DownloadError Md4)) :
    (joined.map (s.check file)).map Prod.fst = joined.map Prod.fst := by
  rw [List.map_map]
  exact List.map_congr_left fun r _ ↦ check_block s r

/-- What arrived matched. -/
theorem checks_of_isVerified {s : Scheduler} {r : Nat × Source × Except DownloadError Md4}
    (h : isVerified (s.check file r) = true) :
    ∃ md4, r.2.2 = .ok md4 ∧ s.checks file r.1 md4 = true := by
  obtain ⟨i, src, e | md4⟩ := r
  · cases h
  · refine ⟨md4, rfl, ?_⟩
    unfold check at h
    dsimp only at h ⊢
    cases hchecks : s.checks file i md4 with
    | true => rfl
    | false =>
      rw [hchecks] at h
      cases h

/-- A join keeps the state sound. -/
theorem Sound.join {before : BlockRows} {s : Scheduler} (h : s.Sound hashPart file before [])
    (hphase : s.phase = .joining) (ends : List (Nat × BlockEnd)) (persist : PersistAnswers)
    (unwritten : List Nat) :
    (s.join file ends persist unwritten).Sound hashPart file before [] := by
  unfold Scheduler.join
  split
  · exact h.fail _
  · obtain ⟨lost, hperm, -, -⟩ := takeEnded_spec s.running ends
    generalize takeEnded s.running ends = taken at hperm ⊢
    obtain ⟨running, joined⟩ := taken
    dsimp only at hperm ⊢
    have hlive : s.phase.isEnded = false := by rw [hphase]; rfl
    have hsub : (s.pending ++ running.map Prod.fst ++
        (joined.map (s.check file)).map Prod.fst).Subperm (s.held ++ []) := by
      have hblocks := hperm.map Prod.fst
      rw [List.map_append, List.map_append, List.map_map] at hblocks
      rw [map_check, List.append_nil, List.append_assoc]
      refine (List.subperm_append_left _).mpr ?_
      refine List.perm_append_comm.subperm.trans ?_
      exact (List.sublist_append_right _ _).subperm.trans hblocks.subperm
    have hslots : running.length ≤ s.concurrency := by
      have hcount := hperm.length_eq
      rw [List.length_append, List.length_append] at hcount
      have := h.slots.1
      omega
    have hopen : Sound hashPart file before ((joined.map (s.check file)).map Prod.fst)
        { s with running, phase := .filling } :=
      (h.move hsub hslots (by rw [hphase]; exact fun h ↦ by cases h)).go hlive fun h ↦ by cases h
    have hpublished := hopen.publish rfl (fun r hr hverified hmany ↦ by
      obtain ⟨r', -, rfl⟩ := List.mem_map.mp hr
      obtain ⟨md4, -, hchecks⟩ := checks_of_isVerified hverified
      intro hnone
      rw [checks, hmany, show s.hashsetCache = none from hnone] at hchecks
      simp at hchecks) persist
    split
    · exact hpublished.forget
    · next hgoes =>
      apply hpublished.settleAll
      rcases publish_cases file { s with running, phase := .filling } (joined.map (s.check file))
        persist with ⟨-, heq⟩ | ⟨_, _, -, heq⟩ | ⟨-, -, heq⟩
      · rw [heq]
      · rw [heq] at hgoes
        exact absurd rfl hgoes
      · rw [heq]

/-! ## Taking stock -/

private theorem ed2kConcurrency_le (segmentCount : Int) (remaining : Nat) :
    ed2kConcurrency segmentCount remaining ≤ maxEd2kConcurrency := by
  unfold ed2kConcurrency maxEd2kConcurrency
  dsimp only
  omega

/-- Taking stock keeps the state sound. -/
theorem Sound.takeStock {before : BlockRows} {s : Scheduler} (h : s.Sound hashPart file before [])
    (hphase : s.phase = .outer) (disk : List UInt8) (hashsetRead writes loads : Bool) :
    (s.takeStock hashPart file disk hashsetRead writes loads).Sound hashPart file before [] := by
  have hlive : s.phase.isEnded = false := by rw [hphase]; rfl
  have hidle := h.idle hphase
  have hrunning : s.running = [] :=
    List.map_eq_nil_iff.mp (List.append_eq_nil_iff.mp hidle).2
  unfold Scheduler.takeStock
  dsimp only
  split
  · generalize finalizeAndVerify hashPart _ writes disk file.rootHash file.totalBytes
      file.partSize = checked
    obtain ⟨update, outcome⟩ := checked
    have hover : ∀ result, Sound hashPart file before [] { s with
        rows := s.rows.afterFinalize update, phase := .ended result } := fun result ↦
      { h with
        idle := fun h ↦ by cases h
        rows := fun h ↦ by cases h
        retries := fun i ↦ (BlockRows.retries_afterFinalize update i).trans (h.retries i)
        strikes := fun i ↦ ⟨(h.strikes i).1, fun _ ↦ rfl⟩
        searches := ⟨h.searches.1, fun _ ↦ rfl⟩ }
    dsimp only
    split
    · exact hover _
    · split
      · next hmore =>
        split
        · exact
            { h with
              counts := BlockSnapshot.counts_fromRows _
              unmarked := fun i hi ↦ by
                rw [List.append_nil] at hi
                change i ∈ s.held at hi
                rw [hidle] at hi
                cases hi
              rows := fun _ i ↦ BlockSnapshot.marked_fromRows
              retries := fun i ↦ (BlockRows.retries_afterFinalize update i).trans (h.retries i)
              rounds := hmore }
        · exact hover _
      · exact hover _
    · exact hover _
  · have hmissing : Sound hashPart file before [] { s with
        pending := s.snapshot.pending
        concurrency := ed2kConcurrency s.segmentCount s.snapshot.pending.length
        phase := .filling } :=
      { h with
        nodup := by
          simp only [held, hrunning, List.map_nil, List.append_nil]
          exact BlockSnapshot.nodup_pending
        unmarked := fun i hi ↦ by
          simp only [held, hrunning, List.map_nil, List.append_nil] at hi
          exact h.counts.mem_pending.mp hi
        idle := fun h ↦ by cases h
        slots := by
          rw [hrunning]
          exact ⟨Nat.zero_le _, ed2kConcurrency_le _ _⟩
        rows := fun _ ↦ h.rows hlive
        strikes := fun i ↦ ⟨(h.strikes i).1, fun hmax ↦ by simp [(h.strikes i).2 hmax] at hlive⟩
        searches := ⟨h.searches.1, fun hmax ↦ by simp [h.searches.2 hmax] at hlive⟩ }
    exact hmissing

/-! ## Starting -/

/-- What a download starts with: no retry is counted or forgotten, the marks are those of the
rows, and no row gains one. -/
theorem prepare_spec (file : Ed2kFile) (rows : BlockRows) (answers : PrepareAnswers) :
    (∀ i, (prepareTempAndBlocks file rows answers).1.retries i = rows.retries i) ∧
      (∀ i, (prepareTempAndBlocks file rows answers).1.Verified i → rows.Verified i) ∧
      ∀ snapshot, (prepareTempAndBlocks file rows answers).2 = .ok snapshot →
        snapshot.Counts file ∧ ∀ i, snapshot.Marked i ↔
          i < file.blockCount ∧ (prepareTempAndBlocks file rows answers).1.Verified i := by
  unfold prepareTempAndBlocks
  split
  · exact ⟨fun _ ↦ rfl, fun _ h ↦ h, fun _ h ↦ by cases h⟩
  · dsimp only
    split
    · exact ⟨fun _ ↦ rfl, fun _ h ↦ h, fun _ h ↦ by cases h⟩
    · split
      · exact ⟨fun _ ↦ rfl, fun _ h ↦ h, fun _ h ↦ by cases h⟩
      · cases htemp : answers.tempOk with
        | true =>
          simp only [if_true, Bool.not_true, Bool.false_eq_true, false_and, if_false]
          split
          · exact ⟨fun _ ↦ rfl, fun _ h ↦ h, fun _ h ↦ by cases h⟩
          · refine ⟨fun i ↦ (BlockRows.initEd2kBlocks_same _ i).2,
              fun i ↦ (BlockRows.initEd2kBlocks_same _ i).1.mp, fun snapshot h ↦ ?_⟩
            cases h
            refine ⟨BlockSnapshot.counts_fromRows _, fun i ↦ ?_⟩
            rw [BlockSnapshot.marked_fromRows, (BlockRows.initEd2kBlocks_same _ i).1]
        | false =>
          have hreset : ∀ i, ¬ rows.resetEd2kBlocks.Verified i := BlockRows.verified_reset
          simp only [Bool.false_eq_true, if_false, Bool.not_false, true_and]
          split
          · exact ⟨BlockRows.retries_reset, fun i h ↦ absurd h (hreset i), fun _ h ↦ by cases h⟩
          · split
            · exact ⟨BlockRows.retries_reset, fun i h ↦ absurd h (hreset i),
                fun _ h ↦ by cases h⟩
            · refine ⟨fun i ↦ ?_, fun i h ↦ ?_, fun snapshot h ↦ ?_⟩
              · rw [(BlockRows.initEd2kBlocks_same _ i).2, BlockRows.retries_reset]
              · exact absurd ((BlockRows.initEd2kBlocks_same _ i).1.mp h) (hreset i)
              · cases h
                refine ⟨BlockSnapshot.counts_fromRows _, fun i ↦ ?_⟩
                rw [(BlockRows.initEd2kBlocks_same _ i).1]
                exact iff_of_false BlockSnapshot.not_marked_fromRows_nil fun h ↦ hreset i h.2

/-- A start is sound. -/
theorem sound_start (hashPart : List UInt8 → Md4) (file : Ed2kFile) (segmentCount : Int)
    (rows : BlockRows) (storedHashset : Option (List UInt8)) (answers : PrepareAnswers) :
    (start file segmentCount rows storedHashset answers).Sound hashPart file rows [] := by
  obtain ⟨hretries, -, hsnapshot⟩ := prepare_spec file rows answers
  unfold start
  generalize prepareTempAndBlocks file rows answers = prepared at hretries hsnapshot ⊢
  obtain ⟨rows', prepared⟩ := prepared
  exact
    { counts := by
        cases prepared with
        | error e => exact BlockSnapshot.counts_fromRows _
        | ok snapshot => exact (hsnapshot snapshot rfl).1
      nodup := List.nodup_nil
      unmarked := fun i hi ↦ by cases hi
      idle := fun _ ↦ rfl
      slots := ⟨Nat.le_refl 0, Nat.zero_le _⟩
      rows := fun hlive i ↦ by
        cases prepared with
        | error e => cases hlive
        | ok snapshot => exact (hsnapshot snapshot rfl).2 i
      retries := fun i ↦ by simpa using hretries i
      strikes := fun i ↦ ⟨Nat.zero_le _, fun h ↦ absurd h (by decide : 0 ≠ blockMaxRetries)⟩
      rounds := Nat.zero_le _
      searches := ⟨Nat.zero_le _, fun h ↦ absurd h (by decide : 0 ≠ maxSourceRetries)⟩
      anchored := fun hashes h ↦ by cases h
      stored := fun h ↦ by cases h }

/-- Every step keeps the state sound. -/
theorem Sound.step {before : BlockRows} {s : Scheduler} (h : s.Sound hashPart file before [])
    (op : SchedulerOp) : (s.step hashPart file op).Sound hashPart file before [] := by
  unfold Scheduler.step
  split
  · exact h
  · exact { h with }
  · exact h.anchor _ _
  · next hphase => exact h.takeStock hphase _ _ _ _
  · next hphase => exact h.fill hphase
  · next hphase => exact h.find hphase _ _ _ _
  · next hphase => exact h.wake hphase
  · next hphase => exact h.join hphase _ _ _
  · exact h

end Scheduler

end Ed2k
