import FluxDown.Base.Intervals
import FluxDown.Base.Run
import FluxDown.Ed2k.Frames
import FluxDown.Ed2k.Hashset

/-!
# What frames can do to a block

Library `Ed2k`. The request loop with the arithmetic of 64 bits as the code does it: an operation
that would leave the type has no result and ends the task. Offsets come from the peer. A packed
part gives only its start, and its end is computed before it is checked, so a start near the last
offset overflows; nothing else does, and whatever frames arrive, only requested bytes of the block
are written.
-/

namespace Ed2k

open Base

/-- The largest file of a link. `src/native/engine/src/ed2k/hash.rs:20`, `link.rs:136–140`. -/
def maxFileSize : Nat := 0x4000000000

namespace BlockDownload

variable (job : BlockJob)

/-- Fill up the ranges in flight. `src/native/engine/src/ed2k/peer.rs:237–244`. -/
def refillU64 : Nat → List PartRange → Nat → Option (List PartRange × Nat)
  | 0, inflight, next => some (inflight, next)
  | fuel + 1, inflight, next =>
    if inflight.length < maxInflight ∧ next < job.blockEnd then do
      let sum ← checkedAdd next blockSize
      let reqEnd := min sum job.blockEnd
      refillU64 fuel (inflight ++ [{ start := next, endExclusive := reqEnd }]) reqEnd
    else some (inflight, next)

/-- The head of the loop up to the next read. `peer.rs:232–250`. -/
def turnU64 (c : BlockDownload) : Option BlockDownload := do
  let (inflight, nextReqStart) ← refillU64 job maxInflight c.inflight c.nextReqStart
  let c := { c with inflight, nextReqStart }
  if inflight.isEmpty && receivedCovers c.received (job.blockEnd - job.blockStart) then
    some (c.complete job)
  else some c

/-- Keep the ranges that are not yet covered. `peer.rs:617–624`. -/
def retainU64 (received : List (Nat × Nat)) : List PartRange → Option (List PartRange)
  | [] => some []
  | range :: rest => do
    let s ← checkedSub range.start job.blockStart
    let e ← checkedSub range.endExclusive job.blockStart
    let kept ← retainU64 received rest
    some (if intervalCovered received s e then kept else range :: kept)

/-- Accept a part: checks, the write to disk, the buffer, the intervals, each with what it leaves
behind where a later step fails. `peer.rs:539–625`. -/
def acceptPartU64 (c : BlockDownload) (start endExclusive : Nat) (data : List UInt8) :
    Option (BlockDownload × Option DownloadError) :=
  if endExclusive ≤ start ∨ start < job.blockStart ∨ job.blockEnd < endExclusive ∨
      job.totalBytes < endExclusive then
    some (c, some (.ed2kIntegrity s!"sendingpart out of bounds: [{start},{endExclusive}) not in [{job.blockStart},{job.blockEnd})"))
  else do
    let declared ← checkedSub endExclusive start
    if data.length ≠ declared then
      some (c, some (.ed2kIntegrity s!"sendingpart length mismatch: declared {declared} got {data.length}"))
    else if !(c.inflight.any fun r ↦ r.start ≤ start && endExclusive ≤ r.endExclusive) then
      some (c, some (.ed2kIntegrity "unrequested data received"))
    else do
      let c := { c with file := c.file ++ [(start, data)] }
      let rel ← checkedSub start job.blockStart
      let relStop ← checkedAdd rel data.length
      if c.hasherBuf.length < relStop then some (c, some (.ed2kIntegrity "buffer overflow"))
      else do
        let c := { c with
          hasherBuf := c.hasherBuf.take rel ++ data ++ c.hasherBuf.drop relStop }
        let relEnd ← checkedSub endExclusive job.blockStart
        let received := mergeIntervals (c.received ++ [(rel, relEnd)])
        let c := { c with received }
        if maxIntervals < received.length then
          some (c, some (.ed2kIntegrity "too many fragmented intervals (flood?)"))
        else do
          let inflight ← retainU64 job received c.inflight
          some ({ c with inflight }, none)

end BlockDownload

/-- The bytes that were received, as the code counts them. `peer.rs:682–684`. -/
def receivedTotalU64 (received : List (Nat × Nat)) : Option Nat :=
  received.foldlM (fun total r ↦ do checkedAdd total (← checkedSub r.2 r.1)) 0

/-- The request loop and the progress of the block that it publishes. `peer.rs:219–230`, `283`. -/
structure BlockLoop where
  download : BlockDownload
  progress : Option Nat

namespace BlockLoop

variable (job : BlockJob)

/-- The download fails. -/
def fail (s : BlockLoop) (e : DownloadError) : BlockLoop := { s with download := s.download.fail e }

/-- A part frame: accept it and publish the progress. `peer.rs:265–286`, `290–305`. -/
def takePartU64 (s : BlockLoop) (start endExclusive : Nat) (data : List UInt8) :
    Option BlockLoop := do
  let c := { s.download with delivered := s.download.delivered ++ [(start, endExclusive)] }
  let (c, error) ← c.acceptPartU64 job start endExclusive data
  match error with
  | some e => some { s with download := c.fail e }
  | none =>
    let total ← receivedTotalU64 c.received
    some ⟨c, some total⟩

/-- What a message does. `peer.rs:264–301`, `637–650`. -/
def dispatchU64 (s : BlockLoop) (message : Ed2kMessage) : Option BlockLoop :=
  match message with
  | .malformed text => some (s.fail (.ed2k text))
  | .queueRank _ => some { s with download := { s.download with waitingAccept := true } }
  | message =>
    if s.download.waitingAccept then
      some { s with download := { s.download with waitingAccept := false } }
    else match message with
      | .sendingPart start endExclusive data => s.takePartU64 job start endExclusive data
      | .compressedPart start packed =>
        match BlockDownload.decompressBounded job packed (blockSize + 1024) with
        | .error e => some (s.fail e)
        | .ok data => do
          let endExclusive ← checkedAdd start data.length
          s.takePartU64 job start endExclusive data
      | .outOfPartReqs => some (s.fail (.ed2k "peer out of part requests"))
      | .noFile => some (s.fail (.ed2k "peer does not have this file"))
      | _ => some s

/-- After a message: end the loop if the block is covered, else go round again.
`peer.rs:303–306`. -/
def goOnU64 (s : BlockLoop) : Option BlockLoop :=
  if s.download.result.isSome || s.download.waitingAccept then some s
  else if receivedCovers s.download.received (job.blockEnd - job.blockStart) then
    some { s with download := s.download.complete job }
  else do
    let download ← s.download.turnU64 job
    some { s with download }

/-- A frame is read. `peer.rs:253–306`. -/
def readU64 (s : BlockLoop) (frame : Frame) : Option BlockLoop :=
  match frame.message job with
  | .error e => some (s.fail e)
  | .ok message => do
    let s ← s.dispatchU64 job message
    s.goOnU64 job

/-- The loop up to the first read. `peer.rs:167–168`, `221–250`. -/
def start : Option BlockLoop := do
  let _ ← checkedSub job.blockEnd job.blockStart
  let download ← (BlockDownload.new job).turnU64 job
  some ⟨download, none⟩

end BlockLoop

/-- What the loop meets: a frame, or what ends it from outside, such as a stall, a closed
connection or the user. -/
inductive BlockEvent where
  | frame (frame : Frame)
  | interrupt (e : DownloadError)

namespace BlockLoop

variable (job : BlockJob)

/-- One event, unless the loop has ended. -/
def meet (s : BlockLoop) (event : BlockEvent) : Option BlockLoop :=
  if s.download.result.isSome then some s
  else match event with
    | .frame frame => s.readU64 job frame
    | .interrupt e => some (s.fail e)

/-- One event, unless the task has ended by an overflow. -/
def step (s : Option BlockLoop) (event : BlockEvent) : Option BlockLoop := s.bind (·.meet job event)

end BlockLoop

/-! ## Merging -/

section Merge

/-- Merging in order of starts leaves gaps and covers what was covered. -/
theorem mergeSorted_spec {bound : Nat} : ∀ {rest : List (Nat × Nat)} {current : Nat × Nat},
    current.1 < current.2 → current.2 ≤ bound → (∀ r ∈ rest, r.1 < r.2 ∧ r.2 ≤ bound) →
    (current :: rest).Pairwise (fun a b ↦ a.1 ≤ b.1) →
      Separated (mergeSorted current rest) ∧
      (∀ x, Covered (mergeSorted current rest) x ↔ Covered (current :: rest) x) ∧
      ∀ r ∈ mergeSorted current rest, current.1 ≤ r.1 ∧ r.2 ≤ bound
  | [], current, hcurrent, hbound, _, _ => by
    rw [mergeSorted]
    exact ⟨Separated.singleton hcurrent, fun _ ↦ Iff.rfl, by simpa using hbound⟩
  | (s, e) :: rest, current, hcurrent, hbound, hrest, hsorted => by
    obtain ⟨hfirst, hsorted⟩ := List.pairwise_cons.mp hsorted
    have hnext := hrest (s, e) List.mem_cons_self
    have hothers : ∀ r ∈ rest, r.1 < r.2 ∧ r.2 ≤ bound := fun r hr ↦
      hrest r (List.mem_cons_of_mem _ hr)
    have hstart : current.1 ≤ s := hfirst (s, e) List.mem_cons_self
    rw [mergeSorted]
    split
    · next htouch =>
      -- The interval is taken into the current one.
      have hmerged : current.1 < max current.2 e := lt_of_lt_of_le hcurrent (le_max_left _ _)
      have hmergedBound : max current.2 e ≤ bound := max_le hbound hnext.2
      have hmergedSorted : ((current.1, max current.2 e) :: rest).Pairwise
          (fun a b ↦ a.1 ≤ b.1) := by
        rw [List.pairwise_cons]
        exact ⟨fun r hr ↦ hfirst r (List.mem_cons_of_mem _ hr), (List.pairwise_cons.mp hsorted).2⟩
      obtain ⟨hseparated, hcovered, hwithin⟩ :=
        @mergeSorted_spec bound rest (current.1, max current.2 e) hmerged hmergedBound hothers
          hmergedSorted
      refine ⟨hseparated, fun x ↦ ?_, hwithin⟩
      rw [hcovered x, covered_cons, covered_cons, covered_cons, ← or_assoc]
      apply or_congr_left
      simp only at htouch hstart ⊢
      omega
    · next hgap =>
      -- The current interval is done: the next one starts after its end.
      obtain ⟨hseparated, hcovered, hwithin⟩ :=
        @mergeSorted_spec bound rest (s, e) hnext.1 hnext.2 hothers hsorted
      refine ⟨hseparated.cons hcurrent fun r hr ↦ ?_, fun x ↦ ?_, fun r hr ↦ ?_⟩
      · have hafter := (hwithin r hr).1
        simp only at hafter hgap
        omega
      · rw [covered_cons, covered_cons, hcovered x]
      · cases hr with
        | head => exact ⟨le_refl _, hbound⟩
        | tail _ hr => exact ⟨le_trans hstart (hwithin r hr).1, (hwithin r hr).2⟩

private theorem mergeIntervals_spec {bound : Nat} {intervals : List (Nat × Nat)}
    (h : ∀ r ∈ intervals, r.1 < r.2 ∧ r.2 ≤ bound) :
    Separated (mergeIntervals intervals) ∧
      (∀ x, Covered (mergeIntervals intervals) x ↔ Covered intervals x) ∧
      ∀ r ∈ mergeIntervals intervals, r.2 ≤ bound := by
  have hsorted : (intervals.insertionSort fun a b ↦ a.1 ≤ b.1).Pairwise (fun a b ↦ a.1 ≤ b.1) := by
    have : Std.Total (α := Nat × Nat) (fun a b ↦ a.1 ≤ b.1) := ⟨fun a b ↦ Nat.le_total a.1 b.1⟩
    have : IsTrans (Nat × Nat) (fun a b ↦ a.1 ≤ b.1) := ⟨fun _ _ _ ↦ Nat.le_trans⟩
    exact List.pairwise_insertionSort _ _
  have hperm := List.perm_insertionSort (fun a b : Nat × Nat ↦ a.1 ≤ b.1) intervals
  unfold mergeIntervals
  split
  · next hnil =>
    rw [hnil] at hperm
    exact ⟨Separated.nil, fun x ↦ covered_perm hperm x, by simp⟩
  · next first rest hcons =>
    rw [hcons] at hperm hsorted
    have hall : ∀ r ∈ first :: rest, r.1 < r.2 ∧ r.2 ≤ bound := fun r hr ↦ h r (hperm.mem_iff.mp hr)
    have hfirst := hall first List.mem_cons_self
    obtain ⟨hseparated, hcovered, hwithin⟩ := mergeSorted_spec hfirst.1 hfirst.2
      (fun r hr ↦ hall r (List.mem_cons_of_mem _ hr)) hsorted
    refine ⟨hseparated, fun x ↦ ?_, fun r hr ↦ (hwithin r hr).2⟩
    rw [hcovered x, covered_perm hperm x]

/-- A covered range has only covered points. -/
theorem covered_of_intervalCovered {received : List (Nat × Nat)} {s e x : Nat}
    (h : intervalCovered received s e = true) (hs : s ≤ x) (he : x < e) : Covered received x := by
  rw [intervalCovered, List.any_eq_true] at h
  obtain ⟨r, hmem, hr⟩ := h
  simp only [Bool.and_eq_true, decide_eq_true_eq] at hr
  exact ⟨r, hmem, by omega, by omega⟩

private theorem covered_of_receivedCovers {received : List (Nat × Nat)} {blockLen x : Nat}
    (h : receivedCovers received blockLen = true) (hx : x < blockLen) : Covered received x := by
  unfold receivedCovers at h
  split at h
  · next s e =>
    simp only [Bool.and_eq_true, beq_iff_eq, decide_eq_true_eq] at h
    exact ⟨(s, e), List.mem_singleton_self _, by simp only; omega, by simp only; omega⟩
  · cases h

/-- Intervals of the block add up without overflow to the number of points they cover. -/
theorem receivedTotalU64_eq {received : List (Nat × Nat)} {bound : Nat} (h : Separated received)
    (hbound : ∀ r ∈ received, r.2 ≤ bound) (hfits : bound ≤ maxU64) :
    receivedTotalU64 received = some ((Finset.range bound).filter (Covered received)).card := by
  have hfold : ∀ (l : List (Nat × Nat)) (total : Nat), (∀ r ∈ l, r.1 < r.2) →
      total + (l.map fun r ↦ r.2 - r.1).sum ≤ maxU64 →
        l.foldlM (fun total r ↦ do checkedAdd total (← checkedSub r.2 r.1)) total =
          some (total + (l.map fun r ↦ r.2 - r.1).sum) := by
    intro l
    induction l with
    | nil => simp
    | cons r l ih =>
      intro total hl htotal
      rw [List.map_cons, List.sum_cons] at htotal ⊢
      have hr := hl r List.mem_cons_self
      have hstep : (do checkedAdd total (← checkedSub r.2 r.1)) = some (total + (r.2 - r.1)) := by
        rw [checkedSub_of_le (Nat.le_of_lt hr)]
        exact checkedAdd_of_le (by omega)
      have hrest := ih (total + (r.2 - r.1)) (fun r' hr' ↦ hl r' (List.mem_cons_of_mem _ hr'))
        (by omega)
      rw [List.foldlM_cons, hstep, ← Nat.add_assoc]
      exact hrest
  have hcard : ((Finset.range bound).filter (Covered received)).card ≤ bound := by
    calc _ ≤ (Finset.range bound).card := Finset.card_filter_le _ _
      _ = bound := Finset.card_range bound
  have hsum := h.sum_length hbound
  rw [receivedTotalU64, hfold received 0 h.nonempty (by omega), Nat.zero_add, hsum]

end Merge

/-! ## Ranges in flight -/

section Requested

variable {job : BlockJob}

/-- The ranges in flight are apart and inside the block, and what was asked for is in flight or
received. -/
structure Requested (job : BlockJob) (received : List (Nat × Nat)) (inflight : List PartRange)
    (next : Nat) : Prop where
  within : ∀ r ∈ inflight, job.blockStart ≤ r.start ∧ r.start < r.endExclusive ∧
    r.endExclusive ≤ next
  apart : inflight.Pairwise fun a b ↦ a.endExclusive ≤ b.start
  start_le : job.blockStart ≤ next
  le_end : next ≤ job.blockEnd
  covers : ∀ pos, job.blockStart ≤ pos → pos < next →
    (∃ r ∈ inflight, r.start ≤ pos ∧ pos < r.endExclusive) ∨
      Covered received (pos - job.blockStart)

namespace Requested

variable {received : List (Nat × Nat)} {inflight : List PartRange} {next : Nat}

/-- One more range. -/
theorem push (h : Requested job received inflight next) {stop : Nat} (hstop : next < stop)
    (hend : stop ≤ job.blockEnd) :
    Requested job received (inflight ++ [⟨next, stop⟩]) stop where
  within r hr := by
    cases List.mem_append.mp hr with
    | inl hold =>
      have hwithin := h.within r hold
      exact ⟨hwithin.1, hwithin.2.1, Nat.le_trans hwithin.2.2 (Nat.le_of_lt hstop)⟩
    | inr hnew =>
      rw [List.mem_singleton] at hnew
      subst hnew
      exact ⟨h.start_le, hstop, Nat.le_refl _⟩
  apart := by
    rw [List.pairwise_append]
    refine ⟨h.apart, List.pairwise_singleton _ _, fun r hr r' hr' ↦ ?_⟩
    rw [List.mem_singleton] at hr'
    subst hr'
    exact (h.within r hr).2.2
  start_le := Nat.le_trans h.start_le (Nat.le_of_lt hstop)
  le_end := hend
  covers pos hpos hlt := by
    by_cases hold : pos < next
    · cases h.covers pos hpos hold with
      | inl hflight =>
        obtain ⟨r, hr, hin⟩ := hflight
        exact .inl ⟨r, List.mem_append_left _ hr, hin⟩
      | inr hreceived => exact .inr hreceived
    · exact .inl ⟨⟨next, stop⟩, by simp, by simp only; omega, hlt⟩

private theorem refill (fuel : Nat) (h : Requested job received inflight next) :
    Requested job received (BlockDownload.refill job fuel inflight next).1
      (BlockDownload.refill job fuel inflight next).2 := by
  induction fuel generalizing inflight next with
  | zero => exact h
  | succ fuel ih =>
    rw [BlockDownload.refill]
    split
    · next hroom =>
      apply ih
      have hsize : 0 < blockSize := by decide
      exact h.push (lt_min (by omega) hroom.2) (min_le_right _ _)
    · exact h

/-- Covered ranges are dropped. -/
theorem keep (h : Requested job received inflight next) {received' : List (Nat × Nat)}
    (hmore : ∀ x, Covered received x → Covered received' x) :
    Requested job received' (inflight.filter fun r ↦
      !intervalCovered received' (r.start - job.blockStart) (r.endExclusive - job.blockStart))
      next where
  within r hr := h.within r (List.mem_of_mem_filter hr)
  apart := h.apart.filter _
  start_le := h.start_le
  le_end := h.le_end
  covers pos hpos hlt := by
    cases h.covers pos hpos hlt with
    | inr hreceived => exact .inr (hmore _ hreceived)
    | inl hflight =>
      obtain ⟨r, hr, hin⟩ := hflight
      have hstart := (h.within r hr).1
      by_cases hcovered : intervalCovered received' (r.start - job.blockStart)
          (r.endExclusive - job.blockStart) = true
      · exact .inr (covered_of_intervalCovered hcovered (by omega) (by omega))
      · exact .inl ⟨r, List.mem_filter.mpr ⟨hr, by simpa using hcovered⟩, hin⟩

private theorem mono (h : Requested job received inflight next) {received' : List (Nat × Nat)}
    (hmore : ∀ x, Covered received x → Covered received' x) :
    Requested job received' inflight next where
  within := h.within
  apart := h.apart
  start_le := h.start_le
  le_end := h.le_end
  covers pos hpos hlt := (h.covers pos hpos hlt).imp_right (hmore _)

end Requested

end Requested

namespace BlockDownload

variable {job : BlockJob}

/-- Asking for more does not overflow in a file of the largest size. -/
theorem refillU64_eq (hend : job.blockEnd ≤ maxFileSize) (fuel : Nat)
    (inflight : List PartRange) (next : Nat) :
    refillU64 job fuel inflight next = some (refill job fuel inflight next) := by
  induction fuel generalizing inflight next with
  | zero => rfl
  | succ fuel ih =>
    rw [refillU64, refill]
    split
    · next hroom =>
      have hfits : next + blockSize ≤ maxU64 := by
        have hlimit : maxFileSize + blockSize ≤ maxU64 := by decide
        omega
      rw [checkedAdd_of_le hfits]
      exact ih _ _
    · rfl

private theorem turnU64_eq (hend : job.blockEnd ≤ maxFileSize) (c : BlockDownload) :
    c.turnU64 job = some (c.turn job).1 := by
  rw [turnU64, refillU64_eq hend, turn]
  simp only [Option.bind_eq_bind, Option.bind_some]
  split
  · rfl
  · split <;> rfl

private theorem retainU64_eq (received : List (Nat × Nat)) : ∀ {inflight : List PartRange},
    (∀ r ∈ inflight, job.blockStart ≤ r.start ∧ r.start < r.endExclusive) →
      retainU64 job received inflight = some (inflight.filter fun r ↦
        !intervalCovered received (r.start - job.blockStart) (r.endExclusive - job.blockStart))
  | [], _ => rfl
  | r :: rest, h => by
    have hr := h r List.mem_cons_self
    have hrest := @retainU64_eq received rest fun r' hr' ↦
      h r' (List.mem_cons_of_mem _ hr')
    rw [retainU64, checkedSub_of_le hr.1, checkedSub_of_le (by omega), hrest, List.filter_cons]
    cases hcovered : intervalCovered received (r.start - job.blockStart)
      (r.endExclusive - job.blockStart) <;> simp [hcovered]

end BlockDownload

/-! ## Disk and buffer -/

section Disk

/-- The bytes of a file after a write. -/
def writeAt (disk : Nat → UInt8) (write : Nat × List UInt8) : Nat → UInt8 := fun pos ↦
  if write.1 ≤ pos then write.2.getD (pos - write.1) (disk pos) else disk pos

/-- The bytes of a file after the writes. -/
def onDisk (disk : Nat → UInt8) (writes : List (Nat × List UInt8)) : Nat → UInt8 :=
  writes.foldl writeAt disk

/-- One of the writes reaches the position. -/
def Written (writes : List (Nat × List UInt8)) (pos : Nat) : Prop :=
  ∃ write ∈ writes, write.1 ≤ pos ∧ pos < write.1 + write.2.length

instance (writes : List (Nat × List UInt8)) (pos : Nat) : Decidable (Written writes pos) :=
  inferInstanceAs (Decidable (∃ write ∈ writes, write.1 ≤ pos ∧ pos < write.1 + write.2.length))

private theorem written_concat {writes : List (Nat × List UInt8)} {write : Nat × List UInt8}
    {pos : Nat} :
    Written (writes ++ [write]) pos ↔
      Written writes pos ∨ (write.1 ≤ pos ∧ pos < write.1 + write.2.length) := by
  simp [Written, or_and_right, exists_or]

private theorem onDisk_concat (disk : Nat → UInt8) (writes : List (Nat × List UInt8))
    (write : Nat × List UInt8) :
    onDisk disk (writes ++ [write]) = writeAt (onDisk disk writes) write := by
  rw [onDisk, List.foldl_append]
  rfl

/-- The buffer holds the bytes of the block that were written. -/
structure Mirrors (job : BlockJob) (disk : Nat → UInt8) (writes : List (Nat × List UInt8))
    (buf : List UInt8) : Prop where
  length : buf.length = job.blockEnd - job.blockStart
  bytes : ∀ i < job.blockEnd - job.blockStart, Written writes (job.blockStart + i) →
    buf[i]? = some (onDisk disk writes (job.blockStart + i))

/-- Bytes of a buffer after a copy into it. -/
theorem getElem?_splice {buf data : List UInt8} {rel : Nat}
    (h : rel + data.length ≤ buf.length) (i : Nat) :
    (buf.take rel ++ data ++ buf.drop (rel + data.length))[i]? =
      if rel ≤ i ∧ i < rel + data.length then data[i - rel]? else buf[i]? := by
  have htake : (buf.take rel).length = rel := by
    rw [List.length_take]
    omega
  rw [List.append_assoc]
  by_cases hbefore : i < rel
  · rw [List.getElem?_append_left (by omega), List.getElem?_take_of_lt hbefore,
      if_neg (by omega)]
  · rw [List.getElem?_append_right (by omega), htake]
    by_cases hin : i < rel + data.length
    · rw [List.getElem?_append_left (by omega), if_pos ⟨by omega, hin⟩]
    · rw [List.getElem?_append_right (by omega), List.getElem?_drop, if_neg (by omega)]
      congr 1
      omega

/-- The same bytes go to disk and into the buffer. -/
theorem Mirrors.write {job : BlockJob} {disk : Nat → UInt8}
    {writes : List (Nat × List UInt8)} {buf : List UInt8} (h : Mirrors job disk writes buf)
    {start : Nat} {data : List UInt8} (hstart : job.blockStart ≤ start)
    (hstop : start + data.length ≤ job.blockEnd) :
    Mirrors job disk (writes ++ [(start, data)])
      (buf.take (start - job.blockStart) ++ data ++
        buf.drop (start - job.blockStart + data.length)) where
  length := by
    have hlength := h.length
    simp only [List.length_append, List.length_take, List.length_drop]
    omega
  bytes i hi hwritten := by
    have hlength := h.length
    rw [getElem?_splice (by omega), onDisk_concat, writeAt]
    rw [written_concat] at hwritten
    by_cases hin : start - job.blockStart ≤ i ∧ i < start - job.blockStart + data.length
    · have hsame : job.blockStart + i - start = i - (start - job.blockStart) := by omega
      rw [if_pos hin, if_pos (by simp only; omega), hsame]
      simp only
      rw [List.getD_eq_getElem?_getD, List.getElem?_eq_getElem (by omega)]
      rfl
    · have hold : Written writes (job.blockStart + i) := by
        apply hwritten.resolve_right
        simp only
        omega
      rw [if_neg hin, h.bytes i hi hold]
      simp only
      split
      · next hle =>
        rw [List.getD_eq_getElem?_getD, List.getElem?_eq_none (by omega)]
        rfl
      · rfl

end Disk

/-! ## Parts -/

section Parts

variable {job : BlockJob} {disk : Nat → UInt8}

/-- What was added to the file lies in a range that was in flight. -/
def WritesRequested (c c' : BlockDownload) : Prop :=
  ∃ added, c'.file = c.file ++ added ∧ ∀ write ∈ added, ∃ r ∈ c.inflight,
    r.start ≤ write.1 ∧ write.1 + write.2.length ≤ r.endExclusive

private theorem WritesRequested.of_same {c c' : BlockDownload} (h : c'.file = c.file) :
    WritesRequested c c' := ⟨[], by simp [h], by simp⟩

/-- The intervals are what was written, the ranges are apart, the buffer mirrors the disk. -/
structure BlockDownload.Sound (job : BlockJob) (disk : Nat → UInt8) (c : BlockDownload) : Prop where
  inBlock : ∀ write ∈ c.file, job.blockStart ≤ write.1 ∧ write.1 + write.2.length ≤ job.blockEnd
  separated : Separated c.received
  bounded : ∀ r ∈ c.received, r.2 ≤ job.blockEnd - job.blockStart
  received : ∀ x, Covered c.received x ↔ Written c.file (job.blockStart + x)
  requested : Requested job c.received c.inflight c.nextReqStart
  mirrors : Mirrors job disk c.file c.hasherBuf

namespace BlockDownload

/-- The bytes of a part are written and received. -/
theorem Sound.write {c : BlockDownload} (h : c.Sound job disk) {start stop : Nat}
    {data : List UInt8} (hnonempty : start < stop) (hstart : job.blockStart ≤ start)
    (hstop : stop ≤ job.blockEnd) (hlength : data.length = stop - start) :
    let received := mergeIntervals
      (c.received ++ [(start - job.blockStart, stop - job.blockStart)])
    Sound job disk { c with
      file := c.file ++ [(start, data)]
      hasherBuf := c.hasherBuf.take (start - job.blockStart) ++ data ++
        c.hasherBuf.drop (start - job.blockStart + data.length)
      received } := by
  intro received
  have hintervals : ∀ r ∈ c.received ++ [(start - job.blockStart, stop - job.blockStart)],
      r.1 < r.2 ∧ r.2 ≤ job.blockEnd - job.blockStart := by
    intro r hr
    cases List.mem_append.mp hr with
    | inl hold => exact ⟨h.separated.nonempty r hold, h.bounded r hold⟩
    | inr hnew =>
      rw [List.mem_singleton] at hnew
      subst hnew
      simp only
      omega
  obtain ⟨hseparated, hcovered, hbounded⟩ := mergeIntervals_spec hintervals
  exact {
    inBlock := by
      intro write hwrite
      cases List.mem_append.mp hwrite with
      | inl hold => exact h.inBlock write hold
      | inr hnew =>
        rw [List.mem_singleton] at hnew
        subst hnew
        simp only
        omega
    separated := hseparated
    bounded := hbounded
    received := by
      intro x
      rw [hcovered x, covered_append, h.received x, written_concat]
      apply or_congr_right
      simp only [covered_cons, covered_nil, or_false]
      omega
    requested := by
      apply h.requested.mono
      intro x hx
      rw [hcovered x, covered_append]
      exact .inl hx
    mirrors := h.mirrors.write hstart (by omega) }

/-- Ranges that are covered are dropped. -/
theorem Sound.retain {c : BlockDownload} (h : c.Sound job disk) :
    Sound job disk { c with
      inflight := c.inflight.filter fun r ↦
        !intervalCovered c.received (r.start - job.blockStart)
          (r.endExclusive - job.blockStart) } where
  inBlock := h.inBlock
  separated := h.separated
  bounded := h.bounded
  received := h.received
  requested := h.requested.keep fun _ hx ↦ hx
  mirrors := h.mirrors

/-- Whatever a part says, accepting it does not overflow, and what it writes was asked for. -/
theorem acceptPartU64_sound {c : BlockDownload} (h : c.Sound job disk)
    (hend : job.blockEnd ≤ maxFileSize) (start stop : Nat) (data : List UInt8) :
    ∃ c' error, c.acceptPartU64 job start stop data = some (c', error) ∧ c'.Sound job disk ∧
      c'.result = c.result ∧ WritesRequested c c' ∧
      c.acceptPart job start stop data = error.elim (.ok c') .error := by
  have hsame (e : DownloadError) : ∃ c' error, some (c, some e) = some (c', error) ∧
      c'.Sound job disk ∧ c'.result = c.result ∧ WritesRequested c c' ∧
      (Except.error e : Except DownloadError BlockDownload) = error.elim (.ok c') .error :=
    ⟨c, some e, rfl, h, rfl, WritesRequested.of_same rfl, rfl⟩
  unfold acceptPartU64 acceptPart
  by_cases hbounds : stop ≤ start ∨ start < job.blockStart ∨ job.blockEnd < stop ∨
      job.totalBytes < stop
  · rw [if_pos hbounds, if_pos hbounds]
    exact hsame _
  rw [if_neg hbounds, if_neg hbounds, checkedSub_of_le (by omega), Option.bind_eq_bind,
    Option.bind_some]
  by_cases hlength : data.length ≠ stop - start
  · rw [if_pos hlength, if_pos hlength]
    exact hsame _
  rw [if_neg hlength, if_neg hlength]
  cases hflight : c.inflight.any fun r ↦ r.start ≤ start && stop ≤ r.endExclusive with
  | false =>
    simp only [Bool.not_false, if_true]
    exact hsame _
  | true =>
    have hbuf := h.mirrors.length
    have hlimit : maxFileSize ≤ maxU64 := by decide
    have hwritten := @Sound.write job disk c h start stop data (by omega) (by omega) (by omega)
      (by omega)
    have hrequested : ∃ r ∈ c.inflight, r.start ≤ start ∧ start + data.length ≤ r.endExclusive := by
      rw [List.any_eq_true] at hflight
      obtain ⟨r, hr, hin⟩ := hflight
      simp only [Bool.and_eq_true, decide_eq_true_eq] at hin
      exact ⟨r, hr, by omega, by omega⟩
    have hwrites {c' : BlockDownload} (hfile : c'.file = c.file ++ [(start, data)]) :
        WritesRequested c c' := ⟨[(start, data)], hfile, by simpa using hrequested⟩
    simp only [Bool.not_true, Bool.false_eq_true, if_false]
    rw [checkedSub_of_le (by omega), Option.bind_eq_bind, Option.bind_some,
      checkedAdd_of_le (by omega), Option.bind_some, if_neg (by omega), if_neg (by omega),
      checkedSub_of_le (by omega), Option.bind_some]
    split
    · exact ⟨_, _, rfl, hwritten, rfl, hwrites rfl, rfl⟩
    · rw [retainU64_eq _ fun r hr ↦ ⟨(h.requested.within r hr).1, (h.requested.within r hr).2.1⟩]
      exact ⟨_, _, rfl, hwritten.retain, rfl, hwrites rfl, rfl⟩

/-- More ranges are asked for. -/
theorem Sound.refill {c : BlockDownload} (h : c.Sound job disk) (fuel : Nat) :
    Sound job disk { c with
      inflight := (BlockDownload.refill job fuel c.inflight c.nextReqStart).1
      nextReqStart := (BlockDownload.refill job fuel c.inflight c.nextReqStart).2 } where
  inBlock := h.inBlock
  separated := h.separated
  bounded := h.bounded
  received := h.received
  requested := h.requested.refill fuel
  mirrors := h.mirrors

/-- What else changes does not matter. -/
theorem Sound.congr {c c' : BlockDownload} (h : c.Sound job disk)
    (hfile : c'.file = c.file) (hreceived : c'.received = c.received)
    (hinflight : c'.inflight = c.inflight) (hnext : c'.nextReqStart = c.nextReqStart)
    (hbuf : c'.hasherBuf = c.hasherBuf) : c'.Sound job disk where
  inBlock := by rw [hfile]; exact h.inBlock
  separated := by rw [hreceived]; exact h.separated
  bounded := by rw [hreceived]; exact h.bounded
  received := by rw [hfile, hreceived]; exact h.received
  requested := by rw [hreceived, hinflight, hnext]; exact h.requested
  mirrors := by rw [hfile, hbuf]; exact h.mirrors

private theorem sound_new (hle : job.blockStart ≤ job.blockEnd) :
    (BlockDownload.new job).Sound job disk where
  inBlock write hwrite := absurd hwrite List.not_mem_nil
  separated := Separated.nil
  bounded r hr := absurd hr List.not_mem_nil
  received x := by simp [BlockDownload.new, Written]
  requested := ⟨fun r hr ↦ absurd hr List.not_mem_nil, List.Pairwise.nil, Nat.le_refl _, hle,
    fun pos hpos hlt ↦ absurd hlt (Nat.not_lt.mpr hpos)⟩
  mirrors := ⟨by simp [BlockDownload.new], fun i hi hwritten ↦ by
    simp [BlockDownload.new, Written] at hwritten⟩

end BlockDownload

end Parts

/-! ## The loop -/

section Loop

variable {job : BlockJob} {disk : Nat → UInt8}

/-- The number of bytes of the block that were received. -/
def receivedBytes (job : BlockJob) (received : List (Nat × Nat)) : Nat :=
  ((Finset.range (job.blockEnd - job.blockStart)).filter (Covered received)).card

private theorem receivedBytes_nil (job : BlockJob) : receivedBytes job [] = 0 := by
  rw [receivedBytes, Finset.card_eq_zero, Finset.filter_eq_empty_iff]
  exact fun x _ ↦ covered_nil x

namespace BlockLoop

/-- The download is sound, the progress is what was received, and a block that is done is
covered. -/
private structure Sound (job : BlockJob) (disk : Nat → UInt8) (s : BlockLoop) : Prop where
  download : s.download.Sound job disk
  progress : (∀ e, s.download.result ≠ some (.error e)) →
    s.progress.getD 0 = receivedBytes job s.download.received
  ok : ∀ md4, s.download.result = some (.ok md4) →
    receivedCovers s.download.received (job.blockEnd - job.blockStart) = true ∧
      md4 = job.hashPart s.download.hasherBuf

private theorem Sound.fail {s : BlockLoop} (h : s.Sound job disk) (e : DownloadError) :
    (s.fail e).Sound job disk where
  download := h.download.congr rfl rfl rfl rfl rfl
  progress hresult := absurd rfl (hresult e)
  ok _ hresult := nomatch hresult

/-- The loop ends with a covered block. -/
theorem Sound.complete {s : BlockLoop} (h : s.Sound job disk)
    (hnone : s.download.result = none)
    (hcovers : receivedCovers s.download.received (job.blockEnd - job.blockStart) = true) :
    Sound job disk { s with download := s.download.complete job } where
  download := h.download.congr rfl rfl rfl rfl rfl
  progress _ := h.progress (by simp [hnone])
  ok _ hresult := by
    cases hresult
    exact ⟨hcovers, rfl⟩

private theorem Sound.turn {s : BlockLoop} (h : s.Sound job disk)
    (hnone : s.download.result = none) :
    Sound job disk { s with download := (s.download.turn job).1 } ∧
      ((s.download.turn job).1).file = s.download.file := by
  have hrefill : Sound job disk { s with download := { s.download with
      inflight := (BlockDownload.refill job maxInflight s.download.inflight
        s.download.nextReqStart).1
      nextReqStart := (BlockDownload.refill job maxInflight s.download.inflight
        s.download.nextReqStart).2 } } :=
    ⟨h.download.refill maxInflight, h.progress, h.ok⟩
  unfold BlockDownload.turn
  simp only
  split
  · next hdone =>
    simp only [Bool.and_eq_true] at hdone
    exact ⟨hrefill.complete hnone hdone.2, rfl⟩
  · split
    · exact ⟨hrefill, rfl⟩
    · exact ⟨hrefill, rfl⟩

/-- A part of any offsets: it is accepted, or it ends the loop. -/
theorem Sound.takePart {s : BlockLoop} (h : s.Sound job disk)
    (hnone : s.download.result = none) (hend : job.blockEnd ≤ maxFileSize) (start stop : Nat)
    (data : List UInt8) :
    ∃ s', s.takePartU64 job start stop data = some s' ∧ s'.Sound job disk ∧
      WritesRequested s.download s'.download := by
  obtain ⟨c, error, haccept, hsound, hresult, hwrites, -⟩ := BlockDownload.acceptPartU64_sound
    (c := { s.download with delivered := s.download.delivered ++ [(start, stop)] })
    (h.download.congr rfl rfl rfl rfl rfl) hend start stop data
  unfold takePartU64
  simp only [haccept, Option.bind_eq_bind, Option.bind_some]
  cases error with
  | some e =>
    exact ⟨_, rfl, ⟨hsound.congr rfl rfl rfl rfl rfl, fun hno ↦ absurd rfl (hno e),
      fun _ hmd4 ↦ nomatch hmd4⟩, hwrites⟩
  | none =>
    have hfits : job.blockEnd - job.blockStart ≤ maxU64 := by
      have hlimit : maxFileSize ≤ maxU64 := by decide
      omega
    simp only [receivedTotalU64_eq hsound.separated hsound.bounded hfits, Option.bind_some]
    refine ⟨_, rfl, ⟨hsound, fun _ ↦ rfl, fun md4 hmd4 ↦ ?_⟩, hwrites⟩
    rw [hresult, hnone] at hmd4
    cases hmd4

/-- A part is inflated only to an end of 64 bits. -/
def Fits (start : Nat) : Except DownloadError (List UInt8) → Prop
  | .ok data => start + data.length ≤ maxU64
  | .error _ => True

instance (start : Nat) : ∀ inflated, Decidable (Fits start inflated)
  | .ok data => inferInstanceAs (Decidable (start + data.length ≤ maxU64))
  | .error _ => inferInstanceAs (Decidable True)

/-- If the message is a packed part, its end is a number of 64 bits. -/
def MessageFits (job : BlockJob) : Except DownloadError Ed2kMessage → Prop
  | .ok (.compressedPart start packed) =>
    Fits start (BlockDownload.decompressBounded job packed (blockSize + 1024))
  | _ => True

instance (job : BlockJob) : ∀ message, Decidable (MessageFits job message)
  | .ok (.compressedPart start packed) => inferInstanceAs
    (Decidable (Fits start (BlockDownload.decompressBounded job packed (blockSize + 1024))))
  | .ok (.sendingPart _ _ _) | .ok (.queueRank _) | .ok .outOfPartReqs | .ok .noFile |
      .ok (.malformed _) | .ok .other | .error _ => inferInstanceAs (Decidable True)

/-- A packed part that the loop takes ends at a number of 64 bits. -/
def PartFits (job : BlockJob) : Option BlockLoop → BlockEvent → Prop
  | some s, .frame frame => s.download.result.isSome = true ∨ s.download.waitingAccept = true ∨
    MessageFits job (frame.message job)
  | _, _ => True

instance (job : BlockJob) : ∀ s event, Decidable (PartFits job s event)
  | some s, .frame frame => inferInstanceAs (Decidable (s.download.result.isSome = true ∨
    s.download.waitingAccept = true ∨ MessageFits job (frame.message job)))
  | some _, .interrupt _ | none, .frame _ | none, .interrupt _ => inferInstanceAs (Decidable True)

/-- A message overflows exactly if it is a packed part that does not fit. -/
theorem Sound.dispatch {s : BlockLoop} (h : s.Sound job disk)
    (hnone : s.download.result = none) (hend : job.blockEnd ≤ maxFileSize)
    (message : Ed2kMessage) :
    (s.download.waitingAccept = true ∨ MessageFits job (.ok message) →
      ∃ s', s.dispatchU64 job message = some s' ∧ s'.Sound job disk ∧
        WritesRequested s.download s'.download) ∧
    (¬ (s.download.waitingAccept = true ∨ MessageFits job (.ok message)) →
      s.dispatchU64 job message = none) := by
  have hwait (waitingAccept : Bool) :
      Sound job disk { s with download := { s.download with waitingAccept } } :=
    ⟨h.download.congr rfl rfl rfl rfl rfl, h.progress, h.ok⟩
  have hsame {s' : BlockLoop} (hsound : s'.Sound job disk)
      (hfile : s'.download.file = s.download.file) : ∃ s'', some s' = some s'' ∧
        s''.Sound job disk ∧ WritesRequested s.download s''.download :=
    ⟨s', rfl, hsound, WritesRequested.of_same hfile⟩
  cases hwaiting : s.download.waitingAccept with
  | true =>
    refine ⟨fun _ ↦ ?_, fun hno ↦ absurd (.inl rfl) hno⟩
    cases message <;> simp only [dispatchU64, hwaiting, if_true]
    case malformed => exact hsame (h.fail _) rfl
    case queueRank => exact hsame (hwait true) rfl
    all_goals exact hsame (hwait false) rfl
  | false =>
    cases message <;> simp only [dispatchU64, hwaiting, Bool.false_eq_true, if_false, false_or]
    case compressedPart start packed =>
      cases hinflated : BlockDownload.decompressBounded job packed (blockSize + 1024) with
      | error e =>
        refine ⟨fun _ ↦ hsame (h.fail e) rfl, fun hno ↦ ?_⟩
        simp [MessageFits, hinflated, Fits] at hno
      | ok data =>
        simp only [MessageFits, hinflated, Fits, Option.bind_eq_bind]
        constructor
        · intro hfits
          rw [checkedAdd_of_le hfits]
          exact h.takePart hnone hend start _ data
        · intro hno
          rw [checkedAdd_of_lt (by omega)]
          rfl
    all_goals refine ⟨fun _ ↦ ?_, fun hno ↦ absurd trivial hno⟩
    case sendingPart start stop data _ => exact h.takePart hnone hend start stop data
    case queueRank => exact hsame (hwait true) rfl
    case outOfPartReqs => exact hsame (h.fail _) rfl
    case noFile => exact hsame (h.fail _) rfl
    case malformed => exact hsame (h.fail _) rfl
    case other => exact hsame h rfl

/-- After a message the loop goes on without an overflow. -/
theorem Sound.goOn {s : BlockLoop} (h : s.Sound job disk)
    (hend : job.blockEnd ≤ maxFileSize) :
    ∃ s', s.goOnU64 job = some s' ∧ s'.Sound job disk ∧
      s'.download.file = s.download.file := by
  unfold goOnU64
  split
  · exact ⟨s, rfl, h, rfl⟩
  · next hgoing =>
    simp only [Bool.or_eq_true, not_or, Option.not_isSome_iff_eq_none] at hgoing
    split
    · next hcovers => exact ⟨_, rfl, h.complete hgoing.1 hcovers, rfl⟩
    · rw [BlockDownload.turnU64_eq hend]
      have hturn := h.turn hgoing.1
      exact ⟨_, rfl, hturn.1, hturn.2⟩

/-- An event overflows exactly if it is a frame with a packed part that does not fit. -/
theorem Sound.meet {s : BlockLoop} (h : s.Sound job disk)
    (hend : job.blockEnd ≤ maxFileSize) (event : BlockEvent) :
    (PartFits job (some s) event → ∃ s', step job (some s) event = some s' ∧
      s'.Sound job disk ∧ WritesRequested s.download s'.download) ∧
    (¬ PartFits job (some s) event → step job (some s) event = none) := by
  have hsame {s' : BlockLoop} (hsound : s'.Sound job disk)
      (hfile : s'.download.file = s.download.file) : ∃ s'', some s' = some s'' ∧
        s''.Sound job disk ∧ WritesRequested s.download s''.download :=
    ⟨s', rfl, hsound, WritesRequested.of_same hfile⟩
  simp only [step, Option.bind_some, BlockLoop.meet]
  cases hresult : s.download.result with
  | some result =>
    simp only [Option.isSome_some, if_true]
    refine ⟨fun _ ↦ hsame h rfl, fun hno ↦ absurd ?_ hno⟩
    cases event with
    | frame frame => exact .inl (by rw [hresult]; rfl)
    | interrupt e => trivial
  | none =>
    simp only [Option.isSome_none, Bool.false_eq_true, if_false]
    cases event with
    | interrupt e => exact ⟨fun _ ↦ hsame (h.fail e) rfl, fun hno ↦ absurd trivial hno⟩
    | frame frame =>
      simp only [PartFits, hresult, Option.isSome_none, Bool.false_eq_true, false_or, readU64]
      cases hmessage : frame.message job with
      | error e =>
        exact ⟨fun _ ↦ hsame (h.fail e) rfl, fun hno ↦ absurd (.inr trivial) hno⟩
      | ok message =>
        have hdispatch := h.dispatch hresult hend message
        constructor
        · intro hfits
          obtain ⟨s', hs', hsound, added, hfile, hwrites⟩ := hdispatch.1 hfits
          obtain ⟨s'', hs'', hsound', hfile'⟩ := hsound.goOn hend
          refine ⟨s'', ?_, hsound', added, hfile'.trans hfile, hwrites⟩
          simp only [hs', Option.bind_eq_bind, Option.bind_some, hs'']
        · intro hno
          simp only [hdispatch.2 hno, Option.bind_eq_bind, Option.bind_none]

private theorem sound_start (hle : job.blockStart ≤ job.blockEnd)
    (hend : job.blockEnd ≤ maxFileSize) :
    ∃ s, start job = some s ∧ s.Sound job disk := by
  have hnew : Sound job disk ⟨BlockDownload.new job, none⟩ :=
    ⟨BlockDownload.sound_new hle, fun _ ↦ (receivedBytes_nil job).symm,
      fun _ hmd4 ↦ nomatch hmd4⟩
  rw [start, checkedSub_of_le hle, BlockDownload.turnU64_eq hend]
  exact ⟨_, rfl, (hnew.turn rfl).1⟩

/-! ## Safety -/

/-- What the peer cannot break, whatever the frames are. -/
structure Safe (job : BlockJob) (disk : Nat → UInt8) (s : BlockLoop) : Prop where
  /-- Writes stay inside the block. -/
  inBlock : ∀ write ∈ s.download.file,
    job.blockStart ≤ write.1 ∧ write.1 + write.2.length ≤ job.blockEnd
  /-- The received intervals are in order and neither overlap nor touch. -/
  separated : Separated s.download.received
  /-- They are the positions that were written. -/
  received : ∀ x, Covered s.download.received x ↔ Written s.download.file (job.blockStart + x)
  /-- Ranges in flight do not overlap. -/
  apart : s.download.inflight.Pairwise fun a b ↦ a.endExclusive ≤ b.start
  /-- Every position of the block is in flight, received or still to be asked for. -/
  covers : ∀ pos, job.blockStart ≤ pos → pos < job.blockEnd →
    (∃ r ∈ s.download.inflight, r.start ≤ pos ∧ pos < r.endExclusive) ∨
      Covered s.download.received (pos - job.blockStart) ∨ s.download.nextReqStart ≤ pos
  /-- The progress is the number of bytes of the block that were received. -/
  progress : (∀ e, s.download.result ≠ some (.error e)) → s.progress.getD 0 =
    ((Finset.range (job.blockEnd - job.blockStart)).filter fun x ↦
      Written s.download.file (job.blockStart + x)).card
  /-- Success means that every byte was received, and it gives the MD4 of the bytes on disk. -/
  ok : ∀ md4, s.download.result = some (.ok md4) →
    (∀ pos, job.blockStart ≤ pos → pos < job.blockEnd → Written s.download.file pos) ∧
    md4 = job.hashPart ((List.range (job.blockEnd - job.blockStart)).map fun i ↦
      onDisk disk s.download.file (job.blockStart + i))

private theorem Sound.safe {s : BlockLoop} (h : s.Sound job disk) : s.Safe job disk where
  inBlock := h.download.inBlock
  separated := h.download.separated
  received := h.download.received
  apart := h.download.requested.apart
  covers pos hpos hlt := by
    by_cases hasked : pos < s.download.nextReqStart
    · exact (h.download.requested.covers pos hpos hasked).imp_right .inl
    · exact .inr (.inr (Nat.le_of_not_lt hasked))
  progress hresult := by
    rw [h.progress hresult, receivedBytes]
    congr 1
    ext x
    simp only [Finset.mem_filter, h.download.received x]
  ok md4 hmd4 := by
    obtain ⟨hcovers, hhash⟩ := h.ok md4 hmd4
    have hwritten : ∀ i < job.blockEnd - job.blockStart,
        Written s.download.file (job.blockStart + i) := fun i hi ↦
      (h.download.received i).mp (covered_of_receivedCovers hcovers hi)
    refine ⟨fun pos hpos hlt ↦ ?_, ?_⟩
    · have hpoint := hwritten (pos - job.blockStart) (by omega)
      rwa [Nat.add_sub_cancel' hpos] at hpoint
    · rw [hhash]
      congr 1
      apply List.ext_getElem?
      intro i
      by_cases hi : i < job.blockEnd - job.blockStart
      · rw [h.download.mirrors.bytes i hi (hwritten i hi), List.getElem?_map,
          List.getElem?_range hi, Option.map_some]
      · have hlength := h.download.mirrors.length
        rw [List.getElem?_eq_none (by omega), List.getElem?_eq_none (by simp; omega)]

/-- No step overflows, every state reached is safe and every step writes only what was in
flight. -/
def Behaves (job : BlockJob) (disk : Nat → UInt8) (events : List BlockEvent) : Prop :=
  (∀ n, ∃ s, run (step job) (start job) (events.take n) = some s ∧ s.Safe job disk) ∧
  ∀ n s s', run (step job) (start job) (events.take n) = some s →
    run (step job) (start job) (events.take (n + 1)) = some s' →
    WritesRequested s.download s'.download

/-- The loop of 64 bits ends as the other one does, and until then both are in one state. -/
def Agrees (s : BlockLoop) (c : BlockDownload) : Prop :=
  c.result = s.download.result ∧ (c.result = none → c = s.download)

private theorem Sound.takePart_agrees {s s' : BlockLoop} (h : s.Sound job disk)
    (hend : job.blockEnd ≤ maxFileSize) {start stop : Nat} {data : List UInt8}
    (hs' : s.takePartU64 job start stop data = some s') :
    s'.Agrees (s.download.takePart job start stop data) := by
  obtain ⟨c, error, haccept, hsound, -, -, hplain⟩ := BlockDownload.acceptPartU64_sound
    (c := { s.download with delivered := s.download.delivered ++ [(start, stop)] })
    (h.download.congr rfl rfl rfl rfl rfl) hend start stop data
  simp only [takePartU64, haccept, Option.bind_eq_bind, Option.bind_some] at hs'
  simp only [BlockDownload.takePart, hplain]
  cases error with
  | some e =>
    rw [← Option.some.inj hs']
    exact ⟨rfl, fun hnone ↦ nomatch hnone⟩
  | none =>
    cases htotal : receivedTotalU64 c.received with
    | none => simp [htotal] at hs'
    | some total =>
      simp only [htotal, Option.bind_some] at hs'
      rw [← Option.some.inj hs']
      exact ⟨rfl, fun _ ↦ rfl⟩

private theorem Sound.dispatch_agrees {s s' : BlockLoop} (h : s.Sound job disk)
    (hend : job.blockEnd ≤ maxFileSize) {message : Ed2kMessage}
    (hlen : message.payloadLen job.largeFile ≤ maxPeerFrame)
    (hs' : s.dispatchU64 job message = some s') :
    s'.Agrees (s.download.dispatch job message) := by
  have hsame {t : BlockLoop} {c : BlockDownload} (ht : some t = some s') (hc : c = t.download) :
      s'.Agrees c := by
    rw [← Option.some.inj ht, hc]
    exact ⟨rfl, fun _ ↦ rfl⟩
  unfold BlockDownload.dispatch
  rw [if_neg (by omega)]
  cases hwaiting : s.download.waitingAccept with
  | true =>
    cases message <;> simp only [dispatchU64, hwaiting, if_true] at hs' ⊢ <;> exact hsame hs' rfl
  | false =>
    cases message <;> simp only [dispatchU64, hwaiting, Bool.false_eq_true, if_false] at hs' ⊢
    case sendingPart start stop data => exact h.takePart_agrees hend hs'
    case compressedPart start packed =>
      cases hinflated : BlockDownload.decompressBounded job packed (blockSize + 1024) with
      | error e =>
        simp only [hinflated] at hs' ⊢
        exact hsame hs' rfl
      | ok data =>
        simp only [hinflated, Option.bind_eq_bind, Option.bind_eq_some_iff] at hs' ⊢
        obtain ⟨stop, hstop, hs'⟩ := hs'
        rw [eq_of_checkedAdd hstop] at hs'
        exact h.takePart_agrees hend hs'
    all_goals exact hsame hs' rfl

/-- Where the arithmetic of 64 bits has a result, the loop reads a message as `read` does. -/
theorem Sound.read_agrees {s s' : BlockLoop} (h : s.Sound job disk)
    (hend : job.blockEnd ≤ maxFileSize) {frame : Frame} {message : Ed2kMessage}
    (hmessage : frame.message job = .ok message)
    (hlen : message.payloadLen job.largeFile ≤ maxPeerFrame)
    (hs' : s.readU64 job frame = some s') :
    s'.Agrees (s.download.read job message).1 := by
  simp only [readU64, hmessage, Option.bind_eq_bind, Option.bind_eq_some_iff] at hs'
  obtain ⟨t, ht, hs'⟩ := hs'
  have hagrees := h.dispatch_agrees hend hlen ht
  simp only [BlockDownload.read]
  cases hresult : (s.download.dispatch job message).result with
  | some result =>
    have htresult : t.download.result = some result := hagrees.1.symm.trans hresult
    simp only [goOnU64, htresult, Option.isSome_some, Bool.true_or, if_true] at hs'
    rw [← Option.some.inj hs']
    simp only [Option.isSome_some, Bool.true_or, if_true]
    exact hagrees
  | none =>
    have hstate := hagrees.2 hresult
    simp only [goOnU64, BlockDownload.turnU64_eq hend, Option.bind_eq_bind, Option.bind_some] at hs'
    rw [← hstate] at hs'
    rw [hresult] at hs'
    simp only [Option.isSome_none, Bool.false_or] at hs' ⊢
    split at hs' <;> rename_i hwaiting
    · rw [← Option.some.inj hs', if_pos hwaiting]
      exact hagrees
    · rw [if_neg hwaiting]
      split at hs' <;> rename_i hcovers
      · rw [← Option.some.inj hs', if_pos hcovers]
        exact ⟨rfl, fun _ ↦ rfl⟩
      · rw [← Option.some.inj hs', if_neg hcovers]
        exact ⟨rfl, fun _ ↦ rfl⟩

private theorem sound_of_step {s s' : BlockLoop} (h : s.Sound job disk)
    (hend : job.blockEnd ≤ maxFileSize) {event : BlockEvent}
    (hstep : step job (some s) event = some s') :
    s'.Sound job disk ∧ WritesRequested s.download s'.download := by
  have hmeet := h.meet hend event
  by_cases hfits : PartFits job (some s) event
  · obtain ⟨s'', hs'', hsound⟩ := hmeet.1 hfits
    rw [hstep, Option.some.injEq] at hs''
    subst hs''
    exact hsound
  · rw [hmeet.2 hfits] at hstep
    cases hstep

/-- Every state that is reached is sound. -/
theorem sound_run (disk : Nat → UInt8) (hle : job.blockStart ≤ job.blockEnd)
    (hend : job.blockEnd ≤ maxFileSize) (events : List BlockEvent) :
    ∀ s, run (step job) (start job) events = some s → s.Sound job disk := by
  have hstep : ∀ (s : Option BlockLoop) (event : BlockEvent),
      (∀ t, s = some t → t.Sound job disk) → ∀ t, step job s event = some t → t.Sound job disk := by
    intro s event hs t ht
    cases s with
    | none => cases ht
    | some s => exact (sound_of_step (hs s rfl) hend ht).1
  have hstart : ∀ t, start job = some t → t.Sound job disk := by
    intro t ht
    obtain ⟨t', ht', hsound⟩ := sound_start hle hend
    rw [ht, Option.some.injEq] at ht'
    subst ht'
    exact hsound
  exact run_preserves hstep hstart events

/-- In every state that is reached, the loop of 64 bits reads on as `read` does. -/
theorem readU64_agrees (hle : job.blockStart ≤ job.blockEnd) (hend : job.blockEnd ≤ maxFileSize)
    {events : List BlockEvent} {s s' : BlockLoop}
    (hs : run (step job) (start job) events = some s) {frame : Frame} {message : Ed2kMessage}
    (hmessage : frame.message job = .ok message)
    (hlen : message.payloadLen job.largeFile ≤ maxPeerFrame)
    (hs' : s.readU64 job frame = some s') : s'.Agrees (s.download.read job message).1 :=
  (sound_run (fun _ ↦ 0) hle hend events s hs).read_agrees hend hmessage hlen hs'

/-- A run whose packed parts fit behaves, and no other does. -/
theorem behaves_iff (hle : job.blockStart ≤ job.blockEnd) (hend : job.blockEnd ≤ maxFileSize)
    (events : List BlockEvent) :
    Behaves job disk events ↔ EveryStep (step job) (PartFits job) (start job) events := by
  constructor
  · intro h
    apply EveryStep.of_at
    intro n event hevent
    obtain ⟨s, hs, -⟩ := h.1 n
    obtain ⟨s', hs', -⟩ := h.1 (n + 1)
    rw [List.take_add_one, hevent, Option.toList_some, run_concat, hs] at hs'
    rw [hs]
    by_contra hno
    rw [((sound_run disk hle hend _ s hs).meet hend event).2 hno] at hs'
    cases hs'
  · intro h
    have hrun (n : Nat) : ∃ s, run (step job) (start job) (events.take n) = some s := by
      have hstep : ∀ (s : Option BlockLoop) (event : BlockEvent),
          (∃ t, s = some t ∧ t.Sound job disk) → PartFits job s event →
            ∃ t, step job s event = some t ∧ t.Sound job disk := by
        rintro s event ⟨t, rfl, hsound⟩ hfits
        obtain ⟨t', ht', hsound', -⟩ := (hsound.meet hend event).1 hfits
        exact ⟨t', ht', hsound'⟩
      obtain ⟨s, hs, -⟩ := run_invariant hstep (sound_start hle hend) (h.take n)
      exact ⟨s, hs⟩
    constructor
    · intro n
      obtain ⟨s, hs⟩ := hrun n
      exact ⟨s, hs, (sound_run disk hle hend _ s hs).safe⟩
    · intro n s s' hs hs'
      rw [List.take_add_one] at hs'
      cases hevent : events[n]? with
      | none =>
        rw [hevent, Option.toList_none, List.append_nil, hs, Option.some.injEq] at hs'
        subst hs'
        exact WritesRequested.of_same rfl
      | some event =>
        rw [hevent, Option.toList_some, run_concat, hs] at hs'
        exact (sound_of_step (sound_run disk hle hend _ s hs) hend hs').2

end BlockLoop

end Loop

section Span

variable {index totalBytes partSize : Nat}

private theorem partSpan_le : (partSpan index totalBytes partSize).1 ≤
    (partSpan index totalBytes partSize).2 := by
  simp only [partSpan]
  omega

private theorem partSpan_end_le : (partSpan index totalBytes partSize).2 ≤ totalBytes :=
  min_le_right _ _

end Span

/-- For every part of a file of a link and all frames: nothing overflows and the loop is safe
throughout the run exactly if every packed part that is taken ends at a number of 64 bits. -/
theorem block_safe (index totalBytes partSize : Nat) (largeFile : Bool)
    (inflate : List UInt8 → Option (List UInt8)) (hashPart : List UInt8 → Md4)
    (hsize : totalBytes ≤ maxFileSize) (disk : Nat → UInt8) (events : List BlockEvent) :
    let job := BlockJob.ofPart index totalBytes partSize largeFile inflate hashPart
    BlockLoop.Behaves job disk events ↔
      EveryStep (BlockLoop.step job) (BlockLoop.PartFits job) (BlockLoop.start job) events :=
  BlockLoop.behaves_iff partSpan_le (Nat.le_trans partSpan_end_le hsize) events

/-- Inflating the packed forms of two letters and of one. -/
def tableInflate (packed : List UInt8) : Option (List UInt8) :=
  if packed = [120, 156, 75, 74, 6, 0, 1, 41, 0, 198] then some [98, 99]
  else if packed = [120, 156, 75, 4, 0, 0, 98, 0, 98] then some [97]
  else none

/-- The only part of a file of three letters. -/
def letterJob : BlockJob := BlockJob.ofPart 0 3 9728000 false tableInflate tableMd4

/-- A part of one letter and a packed part of the others. -/
def letterFrames : List BlockEvent :=
  [.frame ⟨0xE3, 0x46, List.replicate 16 0 ++ [0, 0, 0, 0] ++ [1, 0, 0, 0] ++ [97]⟩,
    .frame ⟨0xC5, 0x40, List.replicate 16 0 ++ [1, 0, 0, 0] ++ [10, 0, 0, 0] ++
      [120, 156, 75, 74, 6, 0, 1, 41, 0, 198]⟩]

/-- A block of the letters a, b and c. -/
theorem block_safe_letters :
    BlockLoop.Behaves letterJob (fun _ ↦ 0) letterFrames ∧
      (run (BlockLoop.step letterJob) (BlockLoop.start letterJob) letterFrames).map
        (·.download.result) = some (some (.ok abcMd4)) := by
  have hbehaves := (block_safe 0 3 9728000 false tableInflate tableMd4 (by decide) (fun _ ↦ 0)
    letterFrames).mpr (by decide +kernel)
  exact ⟨hbehaves, by decide +kernel⟩

/-- A packed part that starts at the last offset. -/
def lastOffsetFrame : Frame :=
  ⟨0xC5, 0xA1, List.replicate 16 0 ++ List.replicate 8 255 ++ [9, 0, 0, 0] ++
    [120, 156, 75, 4, 0, 0, 98, 0, 98]⟩

/-- Its end overflows. -/
theorem block_overflows : ¬ BlockLoop.Behaves letterJob (fun _ ↦ 0) [.frame lastOffsetFrame] := by
  intro h
  obtain ⟨s, hs, -⟩ := h.1 1
  have hnone : (run (BlockLoop.step letterJob) (BlockLoop.start letterJob)
      [.frame lastOffsetFrame]).isNone = true := by decide +kernel
  rw [List.take_one] at hs
  change run (BlockLoop.step letterJob) (BlockLoop.start letterJob) [.frame lastOffsetFrame] =
    some s at hs
  rw [hs] at hnone
  cases hnone

end Ed2k
