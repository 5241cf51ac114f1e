import FluxDown.Ed2k.SchedulerRuns

/-!
# What the scheduler downloads

Library `Ed2k`. Where the link is that of a file, a block gets its mark only in a step in which a task
of it ended with the MD4 of that part of the file, and a run succeeds only in the step that read
the bytes of the file from disk. Two texts with one MD4 are excluded among the texts that are
hashed in the run.
-/

namespace Ed2k

open Base

variable (hashPart : List UInt8 → Md4)

/-- The file that a link stands for. -/
def Ed2kFile.ofContent (content : List UInt8) (partSize : Nat) (hfits : content.length ≤ maxU64)
    (hpart : 0 < partSize) : Ed2kFile :=
  ⟨fileRoot hashPart content partSize, content.length, partSize, hfits, hpart⟩

/-- The texts that are hashed for the file, for the hashsets that belong to its root and for what
the final checks find on disk. -/
def hashedDuring (content : List UInt8) (partSize : Nat) (ops : List SchedulerOp) :
    Set (List UInt8) :=
  {text | text ∈ hashedFor hashPart content partSize ∨
    (∃ block hashes kept, .hashset block hashes ∈ ops ∧
      normalizeHashset hashPart (hashes.map Subtype.val) (fileRoot hashPart content partSize)
        content.length partSize = some kept ∧
      text = (buildRootInput kept content.length partSize).flatten) ∨
    ∃ disk hashsetRead writes loads, .takeStock disk hashsetRead writes loads ∈ ops ∧
      text ∈ hashedFor hashPart (disk.take content.length) partSize}

variable {hashPart}

/-- A final check that passes found the file. -/
theorem content_of_finalizeAndVerify (hlength : ∀ text, (hashPart text).length = 16)
    (hempty : hashPart [] = md4Empty) {content disk : List UInt8} {partSize : Nat}
    (hpart : 0 < partSize) (hfits : content.length ≤ maxU64)
    (hinj : Set.InjOn hashPart (hashedFor hashPart content partSize ∪
      hashedFor hashPart (disk.take content.length) partSize))
    {hashset : Except Unit (Option (List UInt8))} {writes : Bool}
    (hpasses : (finalizeAndVerify hashPart hashset writes disk
      (fileRoot hashPart content partSize) content.length partSize).2 = .ok ()) :
    disk.take content.length = content := by
  obtain ⟨onDisk, honDisk, hpasses⟩ := finalizeAndVerify_ok.mp hpasses
  apply (recomputed_iff hlength hempty hpart hfits hinj honDisk).mp
  split at hpasses
  · next hsingle =>
    refine (head?_iff hsingle ?_).mp hpasses
    have hread := le_of_diskHashes hpart hfits honDisk
    rw [diskHashes_of_le hpart hfits hread] at honDisk
    rw [← Option.some.inj honDisk, length_partHashes, List.length_take, Nat.min_eq_left hread]
  · obtain ⟨-, -, -, -, hroot⟩ := hpasses
    exact hroot

namespace Scheduler

variable {file : Ed2kFile} {segmentCount : Int} {rows : BlockRows}
  {storedHashset : Option (List UInt8)} {answers : PrepareAnswers}

/-- A hashset that is used was received. -/
theorem cache_after {ops : List SchedulerOp} {kept : List Md4}
    (h : (after hashPart file segmentCount rows storedHashset answers ops).hashsetCache =
      some kept) :
    ∃ block hashes, .hashset block hashes ∈ ops ∧ normalizeHashset hashPart
      (hashes.map Subtype.val) file.rootHash file.totalBytes file.partSize = some kept := by
  have hstart : (start file segmentCount rows storedHashset answers).hashsetCache ≠ some kept :=
    fun h ↦ by cases h
  obtain ⟨earlier, op, later, rfl, hbefore, hafter⟩ := exists_step_of_run
    (Q := fun s : Scheduler ↦ s.hashsetCache = some kept) hstart h
  have hsound := sound_after hashPart file segmentCount rows storedHashset answers earlier
  rw [after] at hsound
  rcases step_cases hashPart file (run _ _ earlier) op with hquiet |
    ⟨block, hashes, rfl, heq⟩ | ⟨disk, hashsetRead, writes, loads, -, hphase, heq⟩ |
    ⟨-, new, hfilled⟩ | ⟨ends, persist, unwritten, -, -, heq⟩
  · exact absurd (hquiet.hashsetCache ▸ hafter) hbefore
  · obtain ⟨cache, hanchor, hsame | hnew⟩ := anchor_eq hashPart file
      (run (step hashPart file) (start file segmentCount rows storedHashset answers) earlier) block
      hashes
    · rw [heq, hanchor] at hafter
      exact absurd (hsame ▸ hafter) hbefore
    · rw [heq, hanchor] at hafter
      exact ⟨block, hashes, by simp, hnew ▸ hafter⟩
  · rw [heq, (restocked_takeStock hashPart file hphase disk hashsetRead writes
      loads).hashsetCache] at hafter
    exact absurd hafter hbefore
  · rw [hfilled.hashsetCache] at hafter
    exact absurd hafter hbefore
  · rw [heq, (joined_join hsound ends persist unwritten).hashsetCache] at hafter
    exact absurd hafter hbefore

/-- A start marks no row. -/
theorem verified_start {i : Nat}
    (h : (after hashPart file segmentCount rows storedHashset answers []).rows.Verified i) :
    rows.Verified i :=
  (prepare_spec file rows answers).2.1 i h

/-- A step gives a row its mark with a task of the block whose MD4 is the expected one, after the
data were synced. -/
theorem verified_concat {earlier : List SchedulerOp} {op : SchedulerOp} {i : Nat}
    (hbefore : ¬(after hashPart file segmentCount rows storedHashset answers
      earlier).rows.Verified i)
    (hafter : (after hashPart file segmentCount rows storedHashset answers
      (earlier ++ [op])).rows.Verified i) :
    ∃ ends persist unwritten md4, op = .join ends persist unwritten ∧ persist.synced = true ∧
      i ∈ (after hashPart file segmentCount rows storedHashset answers earlier).running.map
        Prod.fst ∧ (i, .done md4) ∈ ends ∧
        (after hashPart file segmentCount rows storedHashset answers earlier).checks file i md4 =
          true := by
  have hsound := sound_after hashPart file segmentCount rows storedHashset answers earlier
  rw [after, run_concat] at hafter
  rw [after] at hsound hbefore ⊢
  generalize run (step hashPart file) _ earlier = s at hsound hbefore hafter ⊢
  rcases step_cases hashPart file s op with hquiet |
    ⟨block, hashes, -, heq⟩ | ⟨disk, hashsetRead, writes, loads, -, hphase, heq⟩ |
    ⟨-, new, hfilled⟩ | ⟨ends, persist, unwritten, rfl, -, heq⟩
  · exact absurd (hquiet.rows ▸ hafter) hbefore
  · obtain ⟨cache, hanchor, -⟩ := anchor_eq hashPart file s block hashes
    rw [heq, hanchor] at hafter
    exact absurd hafter hbefore
  · obtain ⟨update, hrows⟩ := (restocked_takeStock hashPart file hphase disk hashsetRead writes
      loads).rows
    rw [heq, hrows] at hafter
    exact absurd (BlockRows.verified_of_afterFinalize hafter) hbefore
  · exact absurd (hfilled.rows ▸ hafter) hbefore
  · rw [heq] at hafter
    rcases (joined_join hsound ends persist unwritten).rows i hafter with hold |
      ⟨hsynced, hran, md4, hdone, hchecks⟩
    · exact absurd hold hbefore
    · exact ⟨ends, persist, unwritten, md4, rfl, hsynced, hran, hdone, hchecks⟩

/-- A run for a file without bytes has the outcome it starts with. -/
theorem empty_after (hsize : file.totalBytes = 0) {ops : List SchedulerOp} {n : Nat}
    (h : (after hashPart file segmentCount rows storedHashset answers ops).phase =
      .ended (.ok n)) : n = 0 := by
  obtain ⟨outcome, hstart, hzero⟩ : ∃ outcome,
      (start file segmentCount rows storedHashset answers).phase = .ended outcome ∧
        (outcome = .ok n → n = 0) := by
    unfold start
    dsimp only
    split
    · exact ⟨_, rfl, fun h ↦ by cases h⟩
    · rw [if_pos hsize]
      split
      · exact ⟨_, rfl, fun h ↦ by cases h⟩
      · exact ⟨_, rfl, fun h ↦ by cases h; rfl⟩
  have hended : (after hashPart file segmentCount rows storedHashset answers ops).phase =
      .ended outcome := by
    have hstep : ∀ (s : Scheduler) op, s.phase = .ended outcome →
        (s.step hashPart file op).phase = .ended outcome := by
      intro s op hphase
      unfold step
      rw [hphase]
      exact hphase
    exact run_preserves hstep hstart ops
  rw [hended] at h
  cases h
  exact hzero rfl

/-- A run succeeds in the step in which the scheduler finds all blocks marked and the final check
passes. -/
theorem success_after {ops : List SchedulerOp} {n : Nat} (hsize : file.totalBytes ≠ 0)
    (h : (after hashPart file segmentCount rows storedHashset answers ops).phase =
      .ended (.ok n)) :
    n = file.totalBytes ∧ ∃ earlier disk hashsetRead writes loads later,
      ops = earlier ++ .takeStock disk hashsetRead writes loads :: later ∧
        (after hashPart file segmentCount rows storedHashset answers earlier).phase = .outer ∧
        (after hashPart file segmentCount rows storedHashset answers
          earlier).snapshot.pending = [] ∧
        (after hashPart file segmentCount rows storedHashset answers
          (earlier ++ [.takeStock disk hashsetRead writes loads])).phase = .ended (.ok n) ∧
        ∃ hashset, (finalizeAndVerify hashPart hashset writes disk file.rootHash file.totalBytes
          file.partSize).2 = .ok () := by
  have hstart : (start file segmentCount rows storedHashset answers).phase ≠ .ended (.ok n) := by
    unfold start
    dsimp only
    split
    · exact fun h ↦ by cases h
    · rw [if_neg hsize]
      exact fun h ↦ by cases h
  obtain ⟨earlier, op, later, rfl, hbefore, hafter⟩ := exists_step_of_run
    (Q := fun s : Scheduler ↦ s.phase = .ended (.ok n)) hstart h
  have hsound := sound_after hashPart file segmentCount rows storedHashset answers earlier
  have hright : (after hashPart file segmentCount rows storedHashset answers
      (earlier ++ [op])).phase = .ended (.ok n) := by
    rw [after, run_concat]
    exact hafter
  rw [after] at hsound
  rcases step_cases hashPart file (run _ _ earlier) op with hquiet |
    ⟨block, hashes, -, heq⟩ | ⟨disk, hashsetRead, writes, loads, rfl, hphase, heq⟩ |
    ⟨-, new, hfilled⟩ | ⟨ends, persist, unwritten, rfl, -, heq⟩
  · exact absurd (hquiet.succeeds n hafter) hbefore
  · obtain ⟨cache, hanchor, -⟩ := anchor_eq hashPart file
      (run (step hashPart file) (start file segmentCount rows storedHashset answers) earlier) block
      hashes
    rw [heq, hanchor] at hafter
    exact absurd hafter hbefore
  · rw [heq, takeStock] at hafter
    dsimp only at hafter
    split at hafter
    · next hpending =>
      split at hafter
      · next hpassed =>
        cases hafter
        exact ⟨rfl, earlier, disk, hashsetRead, writes, loads, later, rfl, hphase, hpending,
          hright, _, hpassed⟩
      · split at hafter
        · split at hafter
          · exact absurd hafter hbefore
          · cases hafter
        · cases hafter
      · cases hafter
    · cases hafter
  · exact absurd hafter (hfilled.succeeds n)
  · rw [heq] at hafter
    exact absurd hafter ((joined_join hsound ends persist unwritten).succeeds n)

/-- The expected MD4 of a block is that of the part of the file. -/
theorem md4_of_checks (hlength : ∀ text, (hashPart text).length = 16)
    (hempty : hashPart [] = md4Empty) {content : List UInt8} {partSize : Nat}
    {hfits : content.length ≤ maxU64} {hpart : 0 < partSize} {before : BlockRows} {s : Scheduler}
    (h : s.Sound hashPart (.ofContent hashPart content partSize hfits hpart) before [])
    (hinj : ∀ kept ∈ s.hashsetCache, Set.InjOn hashPart
      {(rootHashes hashPart content partSize).flatten,
        (buildRootInput kept content.length partSize).flatten})
    {i : Nat} (hi : i < partCount content.length partSize) {md4 : Md4}
    (hchecks : s.checks (.ofContent hashPart content partSize hfits hpart) i md4 = true) :
    md4 = hashPart (filePart content partSize i) := by
  unfold checks at hchecks
  split at hchecks
  · next hsingle =>
    have hless : content.length < partSize := of_decide_eq_true hsingle
    rw [partCount_of_lt hless] at hi
    obtain rfl : i = 0 := by omega
    have hroot : md4 = fileRoot hashPart content partSize := of_decide_eq_true hchecks
    rw [hroot, fileRoot, rootHashes, Nat.div_eq_of_lt hless]
    rfl
  · rw [decide_eq_true_eq] at hchecks
    obtain ⟨kept, hkept, hget⟩ := Option.bind_eq_some_iff.mp hchecks
    obtain ⟨hcount, hdigest, hroot⟩ := h.anchored kept hkept
    obtain rfl := (root_iff hlength hempty hdigest hcount (hinj kept hkept)).mp hroot
    have hsame : (partHashes hashPart content partSize)[i]? = some md4 := hget
    rw [partHashes, List.getElem?_map, List.getElem?_range hi] at hsame
    exact (Option.some.inj hsame).symm

end Scheduler

open Scheduler in
/-- Over every run for the link of a file: a start marks no row, and a step gives a row its mark
only when a task of that block, which ran, ends with the MD4 of that part of the file and the data
are synced; the run succeeds with the size of the file, and where it has bytes in the step in
which the scheduler found all blocks marked and read the bytes of the file from disk. -/
theorem scheduler_completes_file (hlength : ∀ text, (hashPart text).length = 16)
    (hempty : hashPart [] = md4Empty) (content : List UInt8) (partSize : Nat)
    (hfits : content.length ≤ maxU64) (hpart : 0 < partSize) (segmentCount : Int)
    (rows : BlockRows) (storedHashset : Option (List UInt8)) (answers : PrepareAnswers)
    (ops : List SchedulerOp)
    (hinj : Set.InjOn hashPart (hashedDuring hashPart content partSize ops)) :
    let reached := after hashPart (.ofContent hashPart content partSize hfits hpart) segmentCount
      rows storedHashset answers
    (∀ i, (reached []).rows.Verified i → rows.Verified i) ∧
    (∀ earlier op later, ops = earlier ++ op :: later → ∀ i < partCount content.length partSize,
      ¬(reached earlier).rows.Verified i → (reached (earlier ++ [op])).rows.Verified i →
        ∃ ends persist unwritten, op = .join ends persist unwritten ∧ persist.synced = true ∧
          i ∈ (reached earlier).running.map Prod.fst ∧
          (i, .done (hashPart (filePart content partSize i))) ∈ ends) ∧
    ∀ n, (reached ops).phase = .ended (.ok n) → n = content.length ∧
      (content ≠ [] → ∃ earlier disk hashsetRead writes loads later,
        ops = earlier ++ .takeStock disk hashsetRead writes loads :: later ∧
          (reached earlier).phase = .outer ∧ (reached earlier).snapshot.pending = [] ∧
          disk.take content.length = content ∧
          (reached (earlier ++ [.takeStock disk hashsetRead writes loads])).phase =
            .ended (.ok n)) := by
  intro reached
  refine ⟨fun i ↦ verified_start, ?_, ?_⟩
  · rintro earlier op later rfl i hi hbefore hafter
    obtain ⟨ends, persist, unwritten, md4, rfl, hsynced, hran, hdone, hchecks⟩ :=
      verified_concat hbefore hafter
    refine ⟨ends, persist, unwritten, rfl, hsynced, hran, ?_⟩
    have hsound := sound_after hashPart (.ofContent hashPart content partSize hfits hpart)
      segmentCount rows storedHashset answers earlier
    rw [← md4_of_checks hlength hempty hsound (fun kept hkept ↦ ?_) hi hchecks]
    · exact hdone
    · obtain ⟨block, hashes, hmem, hnormal⟩ := cache_after hkept
      apply hinj.mono
      rintro text (rfl | rfl)
      · exact .inl (.inr rfl)
      · exact .inr (.inl ⟨block, hashes, kept, List.mem_append_left _ hmem, hnormal, rfl⟩)
  · intro n hphase
    by_cases hsize : content = []
    · have hbytes : (Ed2kFile.ofContent hashPart content partSize hfits hpart).totalBytes = 0 :=
        List.length_eq_zero_iff.mpr hsize
      refine ⟨?_, fun hne ↦ absurd hsize hne⟩
      rw [empty_after hbytes hphase, hsize]
      rfl
    · have hbytes : (Ed2kFile.ofContent hashPart content partSize hfits hpart).totalBytes ≠ 0 :=
        fun hzero ↦ hsize (List.length_eq_zero_iff.mp hzero)
      obtain ⟨hcount, earlier, disk, hashsetRead, writes, loads, later, rfl, houter, hpending,
        hright, hashset, hpassed⟩ := success_after hbytes hphase
      refine ⟨hcount, fun _ ↦ ⟨earlier, disk, hashsetRead, writes, loads, later, rfl, houter,
        hpending, ?_, hright⟩⟩
      apply content_of_finalizeAndVerify hlength hempty hpart hfits _ hpassed
      apply hinj.mono
      rintro text (htext | htext)
      · exact .inl htext
      · exact .inr (.inr ⟨disk, hashsetRead, writes, loads, by simp, htext⟩)

/-- A run over the file of three bytes in a part of three: a source is found, sends the hashset and
the block, and the file is checked. -/
def abcOps : List SchedulerOp :=
  [.takeStock [97, 98, 99] true true true, .fill,
    .find true (some [.lowId 7]) (.peers []) true, .fill,
    .hashset 0 [⟨abcMd4, rfl⟩, ⟨md4Empty, rfl⟩],
    .join [(0, .done abcMd4)] ⟨true, true, true⟩ [], .fill,
    .takeStock [97, 98, 99] true true true]

/-- Nothing is there, and all works. -/
def freshAnswers : PrepareAnswers := ⟨false, none, none, true, true, true, true⟩

private theorem hashedFor_abc {text : List UInt8} (h : text ∈ hashedFor tableMd4 [97, 98, 99] 3) :
    text ∈ ({[97, 98, 99], [], abcMd4 ++ md4Empty} : Set (List UInt8)) := by
  rcases h with ⟨i, rfl⟩ | rfl
  · cases i with
    | zero => exact .inl rfl
    | succ i =>
      refine .inr (.inl ?_)
      rw [filePart, List.drop_eq_nil_of_le (by simp), List.take_nil]
  · refine .inr (.inr ?_)
    decide +kernel

private theorem injOn_abcOps :
    Set.InjOn tableMd4 (hashedDuring tableMd4 [97, 98, 99] 3 abcOps) := by
  have hinj : Set.InjOn tableMd4 {[97, 98, 99], [], abcMd4 ++ md4Empty} := by
    rintro a (rfl | rfl | rfl) b (rfl | rfl | rfl) h
    all_goals first | rfl | exact absurd h (by decide +kernel)
  refine hinj.mono ?_
  rintro text (htext | ⟨block, hashes, kept, hmem, hkept, rfl⟩ |
    ⟨disk, hashsetRead, writes, loads, hmem, htext⟩)
  · exact hashedFor_abc htext
  · have hreceived : block = 0 ∧ hashes = [⟨abcMd4, rfl⟩, ⟨md4Empty, rfl⟩] := by
      simpa [abcOps] using hmem
    obtain ⟨rfl, rfl⟩ := hreceived
    have hnormal : normalizeHashset tableMd4 [abcMd4, md4Empty] (fileRoot tableMd4 [97, 98, 99] 3) 3
        3 = some [abcMd4] := by decide +kernel
    obtain rfl : kept = [abcMd4] := Option.some.inj (hkept.symm.trans hnormal)
    exact .inr (.inr rfl)
  · have hread : disk = [97, 98, 99] ∧ hashsetRead = true ∧ writes = true ∧ loads = true := by
      simpa [abcOps] using hmem
    obtain ⟨rfl, -⟩ := hread
    exact hashedFor_abc htext

open Scheduler in
/-- The block of that file gets its mark when its task ends, and the run succeeds in its last
step. -/
theorem scheduler_completes_abc :
    let reached := after tableMd4 (.ofContent tableMd4 [97, 98, 99] 3 (by decide) (by decide)) 0
      SortedMap.empty none freshAnswers
    (0 ∈ (reached (abcOps.take 5)).running.map Prod.fst ∧
      (reached (abcOps.take 6)).rows.Verified 0) ∧
    ∃ earlier disk hashsetRead writes loads later,
      abcOps = earlier ++ .takeStock disk hashsetRead writes loads :: later ∧
        (reached earlier).snapshot.pending = [] ∧ disk.take 3 = [97, 98, 99] ∧
        (reached (earlier ++ [.takeStock disk hashsetRead writes loads])).phase =
          .ended (.ok 3) := by
  obtain ⟨-, hmarks, hsucceeds⟩ := scheduler_completes_file length_tableMd4 (by decide)
    [97, 98, 99] 3 (by decide) (by decide) 0 SortedMap.empty none freshAnswers abcOps injOn_abcOps
  refine ⟨?_, ?_⟩
  · have hafter : (after tableMd4 (.ofContent tableMd4 [97, 98, 99] 3 (by decide) (by decide)) 0
        SortedMap.empty none freshAnswers (abcOps.take 6)).rows.Verified 0 := by decide +kernel
    obtain ⟨-, -, -, -, -, hran, -⟩ := hmarks (abcOps.take 5) (.join [(0, .done abcMd4)]
      ⟨true, true, true⟩ []) (abcOps.drop 6) rfl 0 (by decide) (by decide +kernel) hafter
    exact ⟨hran, hafter⟩
  · obtain ⟨-, hread⟩ := hsucceeds 3 rfl
    obtain ⟨earlier, disk, hashsetRead, writes, loads, later, hops, -, hpending, hdisk, hright⟩ :=
      hread (by decide)
    exact ⟨earlier, disk, hashsetRead, writes, loads, later, hops, hpending, hdisk, hright⟩

end Ed2k
