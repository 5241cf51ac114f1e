import FluxDown.Base.SortedMap
import FluxDown.Ed2k.Hashset

/-!
# The blocks of a download

Library `Ed2k`. The table of blocks in the database, a row for each block with its state and how
often it was retried, and the snapshot in memory: a mark for each verified block and the bytes
they make up together. A download starts from the rows an earlier one left, where the temporary
file is still whole.
-/

namespace Ed2k

open Base

/-- State of a block that is to be fetched. `src/native/engine/src/ed2k/mod.rs:95`. -/
def blockMissing : Int := 0

/-- `mod.rs:96`. -/
def blockVerified : Int := 3

/-- A row of the table `ed2k_blocks`. -/
structure BlockRow where
  state : Int
  downloadedBytes : Int
  retryCount : Int
deriving DecidableEq

/-- The rows of a task by block index. -/
abbrev BlockRows := SortedMap Nat BlockRow

namespace BlockRows

/-- Rows for the blocks that have none. `src/native/engine/src/db.rs:3654–3681`. -/
def initEd2kBlocks (rows : BlockRows) (blockCount : Nat) : BlockRows :=
  (List.range blockCount).foldl
    (fun rows i ↦ if (rows.get? i).isSome then rows else rows.insert i ⟨0, 0, 0⟩) rows

/-- No block keeps its mark. `db.rs:3684–3690`. -/
def resetEd2kBlocks (rows : BlockRows) : BlockRows :=
  rows.mapValues fun _ row ↦ { row with state := 0, downloadedBytes := 0 }

/-- How often a block was retried. -/
def retries (rows : BlockRows) (index : Nat) : Int := ((rows.get? index).map (·.retryCount)).getD 0

/-- One row of the update. `db.rs:3757–3761`. -/
def put (rows : BlockRows) (block : Nat × Int × Int × Bool) : BlockRows :=
  let (index, state, bytes, bumpRetry) := block
  rows.insert index ⟨state, bytes, rows.retries index + if bumpRetry then 1 else 0⟩

/-- `db.rs:3735–3776`. -/
def updateEd2kBlocks (rows : BlockRows) (blocks : List (Nat × Int × Int × Bool)) : BlockRows :=
  blocks.foldl put rows

/-- What the final check writes. `mod.rs:1149–1150`, `1176–1177`, `1189`. -/
def afterFinalize (rows : BlockRows) : Option BlocksUpdate → BlockRows
  | none => rows
  | some (.missing indices) =>
    rows.updateEd2kBlocks (indices.map fun i ↦ (i, blockMissing, 0, false))
  | some .reset => rows.resetEd2kBlocks

/-- The row of a block says it is verified. -/
def Verified (rows : BlockRows) (index : Nat) : Prop :=
  (rows.get? index).map (·.state) = some blockVerified

instance (rows : BlockRows) (index : Nat) : Decidable (rows.Verified index) :=
  inferInstanceAs (Decidable (_ = _))

end BlockRows

/-- The file of a link, with its parts. -/
structure Ed2kFile where
  rootHash : Md4
  totalBytes : Nat
  partSize : Nat
  totalBytes_le : totalBytes ≤ maxU64
  partSize_pos : 0 < partSize

namespace Ed2kFile

variable (file : Ed2kFile)

/-- How many blocks are to be fetched. -/
def blockCount : Nat := partCount file.totalBytes file.partSize

/-- The half-open range of a block. -/
def span (index : Nat) : Nat × Nat := partSpan index file.totalBytes file.partSize

/-- The length of a block. `mod.rs:143–144`. -/
def blockBytes (index : Nat) : Int := ((file.span index).2 - (file.span index).1 : Nat)

/-- `mod.rs:348`. -/
def isSingle : Bool := isSingleBlock file.totalBytes file.partSize

end Ed2kFile

/-- The marks of the blocks. `mod.rs:120–123`. -/
structure BlockSnapshot where
  verified : List Bool
  verifiedBytes : Int
deriving DecidableEq

namespace BlockSnapshot

variable (file : Ed2kFile)

/-- `mod.rs:139–148`. -/
def setVerified (snapshot : BlockSnapshot) (index : Nat) (verified : Bool) : BlockSnapshot :=
  match snapshot.verified[index]? with
  | none => snapshot
  | some old =>
    if old ≠ verified then
      let bytes := file.blockBytes index
      { verified := snapshot.verified.set index verified
        verifiedBytes := snapshot.verifiedBytes + if verified then bytes else -bytes }
    else snapshot

/-- `mod.rs:126–137`. -/
def fromRows (rows : List (Nat × BlockRow)) : BlockSnapshot :=
  rows.foldl (fun snapshot row ↦
      if row.2.state = blockVerified then snapshot.setVerified file row.1 true else snapshot)
    ⟨List.replicate file.blockCount false, 0⟩

/-- `mod.rs:150–156`. -/
def pending (snapshot : BlockSnapshot) : List Nat :=
  (snapshot.verified.zipIdx.filter fun e ↦ !e.1).map Prod.snd

end BlockSnapshot

/-! ## Starting from what is there -/

/-- Why a download fails. -/
inductive RunError where
  | io
  | db
  | ed2k (text : String)
  | ed2kIntegrity (text : String)
  | cancelled
deriving DecidableEq

/-- Space kept free. `src/native/engine/src/disk_space.rs:12`. -/
def precheckMargin : Nat := 64 * 1024 * 1024

/-- `mod.rs:159–170`. -/
def checkDownloadSpace (available : Option Nat) (required : Nat) : Option RunError :=
  match available with
  | none => none
  | some available =>
    if required ≠ 0 ∧ available < min (required + precheckMargin) maxU64 then
      some (.ed2k (s!"insufficient disk space for ED2K download: need {required}B + " ++
        s!"{precheckMargin}B safety margin, have {available}B"))
    else none

/-- `mod.rs:194–196`. -/
def remainingDiskBytes (total verified : Nat) (allocated : Option Nat) : Nat :=
  total - max verified (allocated.getD 0)

/-- What a download finds when it starts: whether the temporary file has the length of the file,
the space that is free and the space the file takes up already, and what works. -/
structure PrepareAnswers where
  tempOk : Bool
  available : Option Nat
  allocated : Option Nat
  loads : Bool
  resets : Bool
  creates : Bool
  inits : Bool

/-- The snapshot to start with, and the rows. The old marks go before the file is made again.
`mod.rs:198–263`. -/
def prepareTempAndBlocks (file : Ed2kFile) (rows : BlockRows) (answers : PrepareAnswers) :
    BlockRows × Except RunError BlockSnapshot :=
  if answers.tempOk ∧ !answers.loads then (rows, .error .db)
  else
    let snapshot := BlockSnapshot.fromRows file (if answers.tempOk then rows.entries else [])
    let allocated :=
      if answers.tempOk ∧ answers.available.isSome ∧ snapshot.verifiedBytes ≠ file.totalBytes then
        answers.allocated
      else none
    match checkDownloadSpace answers.available
        (remainingDiskBytes file.totalBytes snapshot.verifiedBytes.toNat allocated) with
    | some e => (rows, .error e)
    | none =>
      if !answers.tempOk ∧ !answers.resets then (rows, .error .db)
      else
        let rows := if answers.tempOk then rows else rows.resetEd2kBlocks
        if !answers.tempOk ∧ !answers.creates then (rows, .error .io)
        else if !answers.inits then (rows, .error .db)
        else (rows.initEd2kBlocks file.blockCount, .ok snapshot)

/-! ## Rows -/

section Rows

variable {rows : BlockRows}

/-- The written row is verified when the new state says so. -/
theorem BlockRows.verified_put {index : Nat} {state bytes : Int} {bumpRetry : Bool} {i : Nat} :
    (rows.put (index, state, bytes, bumpRetry)).Verified i ↔
      if i = index then state = blockVerified else rows.Verified i := by
  unfold put Verified
  rw [SortedMap.get?_insert]
  split
  · simp
  · rfl

/-- The written row counts a retry when it is to. -/
theorem BlockRows.retries_put {index : Nat} {state bytes : Int} {bumpRetry : Bool} {i : Nat} :
    (rows.put (index, state, bytes, bumpRetry)).retries i =
      rows.retries i + if i = index ∧ bumpRetry then 1 else 0 := by
  unfold put
  rw [retries, SortedMap.get?_insert]
  split
  · next h => simp [h]
  · next h => simp [h, retries]

/-- An update of one row. -/
theorem BlockRows.update_singleton (b : Nat × Int × Int × Bool) :
    rows.updateEd2kBlocks [b] = rows.put b := rfl

/-- An update with one state for all. -/
theorem BlockRows.verified_update {blocks : List (Nat × Int × Int × Bool)} {state : Int}
    (hstate : ∀ b ∈ blocks, b.2.1 = state) {i : Nat} :
    (rows.updateEd2kBlocks blocks).Verified i ↔
      if i ∈ blocks.map Prod.fst then state = blockVerified else rows.Verified i := by
  induction blocks generalizing rows with
  | nil => simp [updateEd2kBlocks]
  | cons b blocks ih =>
    have hhead := hstate b List.mem_cons_self
    have hrest := @ih (rows.put b) fun b' hb' ↦ hstate b' (List.mem_cons_of_mem b hb')
    obtain ⟨index, state', bytes, bumpRetry⟩ := b
    obtain rfl : state' = state := hhead
    rw [updateEd2kBlocks, List.foldl_cons, ← updateEd2kBlocks, hrest, List.map_cons]
    by_cases hin : i ∈ blocks.map Prod.fst
    · rw [if_pos hin, if_pos (List.mem_cons_of_mem _ hin)]
    · rw [if_neg hin, verified_put]
      by_cases hi : i = index
      · rw [if_pos hi, if_pos (hi ▸ List.mem_cons_self)]
      · rw [if_neg hi, if_neg (by simp only [List.mem_cons, hi, hin, or_self, not_false_eq_true])]

/-- An update that counts no retry. -/
theorem BlockRows.retries_update {blocks : List (Nat × Int × Int × Bool)}
    (hplain : ∀ b ∈ blocks, b.2.2.2 = false) (i : Nat) :
    (rows.updateEd2kBlocks blocks).retries i = rows.retries i := by
  induction blocks generalizing rows with
  | nil => rfl
  | cons b blocks ih =>
    have hhead := hplain b List.mem_cons_self
    have hrest := @ih (rows.put b) fun b' hb' ↦ hplain b' (List.mem_cons_of_mem b hb')
    obtain ⟨index, state, bytes, bumpRetry⟩ := b
    obtain rfl : bumpRetry = false := hhead
    rw [updateEd2kBlocks, List.foldl_cons, ← updateEd2kBlocks, hrest, retries_put]
    simp

/-- A reset leaves no row verified. -/
theorem BlockRows.verified_reset (i : Nat) : ¬ rows.resetEd2kBlocks.Verified i := by
  unfold resetEd2kBlocks Verified
  rw [SortedMap.get?_mapValues]
  cases rows.get? i with
  | none => simp
  | some row => simp [blockVerified]

/-- A reset keeps the retries. -/
theorem BlockRows.retries_reset (i : Nat) : rows.resetEd2kBlocks.retries i = rows.retries i := by
  unfold resetEd2kBlocks retries
  rw [SortedMap.get?_mapValues]
  cases rows.get? i with
  | none => rfl
  | some row => rfl

/-- New rows carry no mark and no retry. -/
theorem BlockRows.initEd2kBlocks_same (blockCount i : Nat) :
    ((rows.initEd2kBlocks blockCount).Verified i ↔ rows.Verified i) ∧
      (rows.initEd2kBlocks blockCount).retries i = rows.retries i := by
  unfold initEd2kBlocks
  induction blockCount with
  | zero => exact ⟨Iff.rfl, rfl⟩
  | succ n ih =>
    rw [List.range_succ, List.foldl_append, List.foldl_cons, List.foldl_nil]
    generalize (List.range n).foldl _ rows = built at ih ⊢
    split
    · exact ih
    · next hnew =>
      rw [Option.not_isSome_iff_eq_none] at hnew
      have hverified := ih.1
      have hretries := ih.2
      simp only [Verified, retries, SortedMap.get?_insert] at hverified hretries ⊢
      by_cases hi : i = n
      · subst hi
        rw [hnew] at hverified hretries
        rw [if_pos rfl, ← hverified, ← hretries]
        simp [blockVerified]
      · rw [if_neg hi]
        exact ⟨hverified, hretries⟩

/-- The final check takes marks away and counts no retry. -/
theorem BlockRows.retries_afterFinalize (update : Option BlocksUpdate) (i : Nat) :
    (rows.afterFinalize update).retries i = rows.retries i := by
  match update with
  | none => rfl
  | some .reset => exact retries_reset i
  | some (.missing indices) =>
    apply retries_update
    intro b hb
    obtain ⟨j, -, rfl⟩ := List.mem_map.mp hb
    rfl

/-- A final check verifies no row. -/
theorem BlockRows.verified_of_afterFinalize {update : Option BlocksUpdate} {i : Nat}
    (h : (rows.afterFinalize update).Verified i) : rows.Verified i := by
  match update with
  | none => exact h
  | some .reset => exact absurd h (verified_reset i)
  | some (.missing indices) =>
    have hstate : ∀ b ∈ indices.map (fun i ↦ (i, blockMissing, (0 : Int), false)),
        b.2.1 = blockMissing := by
      intro b hb
      obtain ⟨j, -, rfl⟩ := List.mem_map.mp hb
      rfl
    rw [afterFinalize, verified_update hstate] at h
    split at h
    · exact absurd h (by decide)
    · exact h

end Rows

/-! ## Marks -/

namespace BlockSnapshot

variable {file : Ed2kFile} {snapshot : BlockSnapshot}

/-- The block has its mark. -/
def Marked (snapshot : BlockSnapshot) (index : Nat) : Prop := snapshot.verified[index]? = some true

instance (snapshot : BlockSnapshot) (index : Nat) : Decidable (snapshot.Marked index) :=
  inferInstanceAs (Decidable (_ = _))

/-- A mark for each block, and the bytes of those that are set. -/
structure Counts (file : Ed2kFile) (snapshot : BlockSnapshot) : Prop where
  length : snapshot.verified.length = file.blockCount
  bytes : snapshot.verifiedBytes =
    ∑ i ∈ Finset.range file.blockCount, if snapshot.Marked i then file.blockBytes i else 0

private theorem marked_setVerified {index i : Nat} {verified : Bool} :
    (snapshot.setVerified file index verified).Marked i ↔
      if i = index ∧ index < snapshot.verified.length then verified = true
      else snapshot.Marked i := by
  unfold setVerified Marked
  cases hold : snapshot.verified[index]? with
  | none =>
    have hout := List.getElem?_eq_none_iff.mp hold
    rw [if_neg (by omega)]
  | some old =>
    have hin := (List.getElem?_eq_some_iff.mp hold).1
    dsimp only
    split
    · dsimp only
      rw [List.getElem?_set]
      by_cases hi : i = index
      · subst hi
        simp [hin]
      · simp [hi, Ne.symm hi]
    · next hsame =>
      rw [ne_eq, Decidable.not_not] at hsame
      by_cases hi : i = index
      · subst hi
        rw [if_pos ⟨rfl, hin⟩, hold, Option.some.injEq, hsame]
      · simp [hi]

private theorem length_setVerified {index : Nat} {verified : Bool} :
    (snapshot.setVerified file index verified).verified.length = snapshot.verified.length := by
  unfold setVerified
  split
  · rfl
  · split
    · exact List.length_set
    · rfl

/-- The bytes follow the mark. -/
theorem Counts.setVerified (h : snapshot.Counts file) (index : Nat) (verified : Bool) :
    (snapshot.setVerified file index verified).Counts file := by
  refine ⟨length_setVerified.trans h.length, ?_⟩
  simp only [marked_setVerified]
  unfold BlockSnapshot.setVerified
  cases hold : snapshot.verified[index]? with
  | none =>
    have hout := List.getElem?_eq_none_iff.mp hold
    simp only [show ∀ i, ¬ (i = index ∧ index < snapshot.verified.length) by omega, if_false]
    exact h.bytes
  | some old =>
    have hin := (List.getElem?_eq_some_iff.mp hold).1
    have hmem : index ∈ Finset.range file.blockCount := by
      rw [Finset.mem_range, ← h.length]
      exact hin
    have hbefore := h.bytes
    rw [← Finset.add_sum_erase _ _ hmem] at hbefore ⊢
    have hothers : (∑ i ∈ (Finset.range file.blockCount).erase index,
          if (if i = index ∧ index < snapshot.verified.length then verified = true
            else snapshot.Marked i) then file.blockBytes i else 0) =
        ∑ i ∈ (Finset.range file.blockCount).erase index,
          if snapshot.Marked i then file.blockBytes i else 0 := by
      apply Finset.sum_congr rfl
      intro i hi
      simp only [Finset.ne_of_mem_erase hi, false_and, if_false]
    rw [hothers]
    simp only [hin, and_self, if_true]
    have hmarked : snapshot.Marked index ↔ old = true := by rw [Marked, hold, Option.some.injEq]
    simp only [hmarked] at hbefore
    generalize (∑ i ∈ (Finset.range file.blockCount).erase index,
      if snapshot.Marked i then file.blockBytes i else 0) = others at hbefore ⊢
    cases old
    · cases verified
      · simpa using hbefore
      · simp only [Bool.false_eq_true, if_false, zero_add, ne_eq, not_false_eq_true, if_true] at *
        omega
    · cases verified
      · simp only [Bool.false_eq_true, if_false, zero_add, ne_eq, not_false_eq_true, if_true,
          Bool.true_eq_false] at *
        omega
      · simpa using hbefore

/-- Marks for several blocks. -/
theorem Counts.setAll (h : snapshot.Counts file) (indices : List Nat) :
    (indices.foldl (fun s i ↦ s.setVerified file i true) snapshot).Counts file ∧
      ∀ i, (indices.foldl (fun s i ↦ s.setVerified file i true) snapshot).Marked i ↔
        i ∈ indices ∧ i < file.blockCount ∨ snapshot.Marked i := by
  induction indices generalizing snapshot with
  | nil => exact ⟨h, fun i ↦ by simp⟩
  | cons index indices ih =>
    obtain ⟨hcounts, hmarked⟩ := ih (h.setVerified index true)
    refine ⟨hcounts, fun i ↦ ?_⟩
    rw [List.foldl_cons, hmarked, marked_setVerified, h.length, List.mem_cons]
    by_cases heq : i = index
    · subst heq
      by_cases hin : i < file.blockCount
      · simp [hin]
      · simp [hin]
    · simp [heq]

/-- A new snapshot counts nothing. -/
theorem Counts.start : Counts file ⟨List.replicate file.blockCount false, 0⟩ := by
  refine ⟨List.length_replicate, ?_⟩
  simp [Marked, List.getElem?_replicate]

/-- The marks that rows give. -/
theorem fromRows_eq (rows : List (Nat × BlockRow)) :
    fromRows file rows =
      ((rows.filter fun row ↦ row.2.state = blockVerified).map Prod.fst).foldl
        (fun s i ↦ s.setVerified file i true) ⟨List.replicate file.blockCount false, 0⟩ := by
  unfold fromRows
  generalize (⟨List.replicate file.blockCount false, 0⟩ : BlockSnapshot) = from0
  induction rows generalizing from0 with
  | nil => rfl
  | cons row rows ih =>
    rw [List.foldl_cons, ih, List.filter_cons]
    by_cases hrow : row.2.state = blockVerified
    · simp [hrow]
    · simp [hrow]

/-- A snapshot of rows counts the verified ones. -/
theorem counts_fromRows (rows : List (Nat × BlockRow)) : (fromRows file rows).Counts file := by
  rw [fromRows_eq]
  exact (Counts.start.setAll _).1

/-- A block is marked when its row is verified. -/
theorem marked_fromRows {rows : BlockRows} {i : Nat} :
    (fromRows file rows.entries).Marked i ↔ i < file.blockCount ∧ rows.Verified i := by
  rw [fromRows_eq, (Counts.start.setAll _).2]
  have hnone : ¬ (⟨List.replicate file.blockCount false, 0⟩ : BlockSnapshot).Marked i := by
    simp [Marked, List.getElem?_replicate]
  have hrow : i ∈ (rows.entries.filter fun row ↦ row.2.state = blockVerified).map Prod.fst ↔
      rows.Verified i := by
    simp only [List.mem_map, List.mem_filter, decide_eq_true_eq, BlockRows.Verified,
      Option.map_eq_some_iff, SortedMap.get?_eq_some_iff]
    constructor
    · rintro ⟨⟨j, row⟩, ⟨hmem, hstate⟩, rfl⟩
      exact ⟨row, hmem, hstate⟩
    · rintro ⟨row, hmem, hstate⟩
      exact ⟨(i, row), ⟨hmem, hstate⟩, rfl⟩
  rw [hrow]
  tauto

/-- Without rows no block is marked. -/
theorem not_marked_fromRows_nil {i : Nat} : ¬ (fromRows file []).Marked i := by
  simp [fromRows, Marked, List.getElem?_replicate]

/-- The blocks to be fetched are those without a mark. -/
theorem Counts.mem_pending (h : snapshot.Counts file) {i : Nat} :
    i ∈ snapshot.pending ↔ i < file.blockCount ∧ ¬ snapshot.Marked i := by
  unfold pending Marked
  rw [← h.length]
  simp only [List.mem_map, List.mem_filter, List.mem_zipIdx_iff_getElem?, Bool.not_eq_true',
    Prod.exists, exists_eq_right]
  constructor
  · intro hget
    refine ⟨(List.getElem?_eq_some_iff.mp hget).1, ?_⟩
    rw [hget]
    decide
  · rintro ⟨hin, hmark⟩
    rw [List.getElem?_eq_getElem hin, Option.some.injEq] at hmark ⊢
    simpa using hmark

/-- Each block waits once. -/
theorem nodup_pending : snapshot.pending.Nodup :=
  (List.nodup_zipIdx_map_snd _).sublist (List.filter_sublist.map _)

end BlockSnapshot

/-! ## Lengths -/

namespace Ed2kFile

variable {file : Ed2kFile}

private theorem span_eq {i : Nat} (hi : i < file.blockCount) :
    file.span i =
      (i * file.partSize, min (i * file.partSize + file.partSize) file.totalBytes) :=
  partSpan_eq file.partSize_pos file.totalBytes_le hi

/-- Blocks are apart. -/
theorem span_disjoint {i j : Nat} (hi : i < file.blockCount) (hj : j < file.blockCount)
    (hij : i < j) : (file.span i).2 ≤ (file.span j).1 := by
  rw [span_eq hi, span_eq hj]
  have hstep := Nat.mul_le_mul_right file.partSize (Nat.succ_le_of_lt hij)
  rw [Nat.succ_mul] at hstep
  dsimp only
  omega

private theorem blockBytes_nonneg (i : Nat) : 0 ≤ file.blockBytes i := Int.natCast_nonneg _

private theorem sum_blockBytes {n : Nat} (hn : n ≤ file.blockCount) :
    ∑ i ∈ Finset.range n, file.blockBytes i ≤ file.totalBytes := by
  have hexact : ∑ i ∈ Finset.range n, file.blockBytes i =
      (min (n * file.partSize) file.totalBytes : Nat) := by
    induction n with
    | zero => simp
    | succ n ih =>
      have hstart : n * file.partSize ≤ file.totalBytes := by
        rcases Nat.eq_zero_or_pos file.totalBytes with hzero | hsize
        · have hone : n = 0 := by
            simp only [blockCount, partCount, hzero, if_true] at hn
            omega
          rw [hone, Nat.zero_mul]
          exact Nat.zero_le _
        · exact (mul_lt_of_lt_partCount file.partSize_pos hn hsize).le
      rw [Finset.sum_range_succ, ih (by omega), blockBytes, span_eq hn, Nat.succ_mul]
      dsimp only
      omega
  rw [hexact]
  omega

end Ed2kFile

/-- The verified bytes are not more than the file has. -/
theorem BlockSnapshot.Counts.le_totalBytes {file : Ed2kFile} {snapshot : BlockSnapshot}
    (h : snapshot.Counts file) :
    0 ≤ snapshot.verifiedBytes ∧ snapshot.verifiedBytes ≤ file.totalBytes := by
  rw [h.bytes]
  constructor
  · apply Finset.sum_nonneg
    intro i _
    split
    · exact Ed2kFile.blockBytes_nonneg i
    · exact le_refl 0
  · refine le_trans (Finset.sum_le_sum fun i _ ↦ ?_) (Ed2kFile.sum_blockBytes le_rfl)
    split
    · exact le_refl _
    · exact Ed2kFile.blockBytes_nonneg i

end Ed2k
