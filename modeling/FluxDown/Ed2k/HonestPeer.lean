import FluxDown.Base.Run
import FluxDown.Ed2k.Peer

/-!
# When an honest peer is blamed

Library `Ed2k`. The client asks for every range in flight before each read, and an honest peer
answers each request in full. While the whole block is in the first request, the block is
complete before the second answer begins; with more ranges than fit into one request, the
second answer repeats a range that is no longer in flight, and the client takes it for an
attack.
-/

namespace Ed2k

open Base

section Bytes

variable {content : List UInt8} {start stop : Nat}

/-- The length of a slice. -/
theorem length_slice (h : stop ≤ content.length) :
    (slice content start stop).length = stop - start := by
  rw [slice, List.length_take, List.length_drop]
  omega

/-- A part of a slice. -/
theorem take_drop_slice {pos stop' : Nat} (hpos : start ≤ pos) (hstop : stop' ≤ stop) :
    ((slice content start stop).drop (pos - start)).take (stop' - pos) =
      slice content pos stop' := by
  rw [slice, slice, List.drop_take, List.take_take, List.drop_drop]
  congr 1
  · omega
  · congr 1
    omega

end Bytes

section Merge

/-- The received bytes are the first of the block. -/
def prefixOf (r : Nat) : List (Nat × Nat) := if r = 0 then [] else [(0, r)]

private theorem mergeIntervals_prefixOf {r stop : Nat} (h : r < stop) :
    mergeIntervals (prefixOf r ++ [(r, stop)]) = prefixOf stop := by
  have hstop : stop ≠ 0 := by omega
  by_cases hr : r = 0
  · subst hr
    simp [prefixOf, mergeIntervals, mergeSorted, hstop]
  · have hmax : max r stop = stop := Nat.max_eq_right (Nat.le_of_lt h)
    simp [prefixOf, mergeIntervals, mergeSorted, hr, hstop, hmax]

/-- A received beginning covers the block when it is as long. -/
theorem receivedCovers_prefixOf {r blockLen : Nat} :
    receivedCovers (prefixOf r) blockLen = decide (r ≠ 0 ∧ blockLen ≤ r) := by
  by_cases hr : r = 0 <;> simp [prefixOf, receivedCovers, hr]

private theorem intervalCovered_prefixOf {r s e : Nat} :
    intervalCovered (prefixOf r) s e = decide (r ≠ 0 ∧ e ≤ r) := by
  by_cases hr : r = 0 <;> simp [prefixOf, intervalCovered, hr]

private theorem length_prefixOf (r : Nat) : (prefixOf r).length ≤ 1 := by
  unfold prefixOf
  split <;> simp

end Merge

namespace BlockDownload

variable {job : BlockJob} {content : List UInt8}

/-- Ranges of full length one after another, the last one up to the end of the block. -/
def Full (job : BlockJob) : Nat → List PartRange → Nat → Prop
  | pos, [], stop => pos = stop
  | pos, r :: rs, stop => r.start = pos ∧ pos < job.blockEnd ∧
      r.endExclusive = min (pos + blockSize) job.blockEnd ∧ Full job r.endExclusive rs stop

private theorem Full.append {pos mid stop : Nat} {rs rs' : List PartRange}
    (h : Full job pos rs mid) (h' : Full job mid rs' stop) : Full job pos (rs ++ rs') stop := by
  induction rs generalizing pos with
  | nil =>
    obtain rfl : pos = mid := h
    exact h'
  | cons r rs ih => exact ⟨h.1, h.2.1, h.2.2.1, ih h.2.2.2⟩

/-- A range of the chain lies within it. -/
theorem Full.mem {pos stop : Nat} {rs : List PartRange} (h : Full job pos rs stop)
    {r : PartRange} (hr : r ∈ rs) :
    pos ≤ r.start ∧ r.start < r.endExclusive ∧ r.endExclusive ≤ r.start + blockSize ∧
      r.endExclusive ≤ job.blockEnd := by
  have hblock : 0 < blockSize := by decide
  induction rs generalizing pos with
  | nil => cases hr
  | cons first rs ih =>
    obtain ⟨hstart, hlt, hend, hrest⟩ := h
    rcases List.mem_cons.mp hr with rfl | hr
    · rw [hstart, hend]
      omega
    · have hspec := ih hrest hr
      rw [hend] at hspec
      omega

/-- Refilling keeps the requests full. -/
theorem Full.refill {pos next : Nat} {inflight : List PartRange} (fuel : Nat)
    (h : Full job pos inflight next) :
    Full job pos (refill job fuel inflight next).1 (refill job fuel inflight next).2 := by
  induction fuel generalizing inflight next with
  | zero => exact h
  | succ fuel ih =>
    rw [BlockDownload.refill]
    split
    · next hroom => exact ih (h.append ⟨rfl, hroom.2, rfl, rfl⟩)
    · exact h

private theorem refill_end (fuel : Nat) (inflight : List PartRange) :
    refill job fuel inflight job.blockEnd = (inflight, job.blockEnd) := by
  cases fuel with
  | zero => rfl
  | succ fuel => rw [refill, if_neg (by omega)]

/-- A request reaches as far as it has room for ranges. -/
theorem refill_next (fuel : Nat) {inflight : List PartRange} {next : Nat}
    (hnext : next ≤ job.blockEnd) (hroom : inflight.length + fuel ≤ maxInflight) :
    (refill job fuel inflight next).2 = min (next + fuel * blockSize) job.blockEnd := by
  induction fuel generalizing inflight next with
  | zero =>
    rw [refill]
    omega
  | succ fuel ih =>
    rw [refill, Nat.succ_mul]
    split
    · refine (ih (Nat.min_le_right _ _) ?_).trans (by omega)
      rw [List.length_append, List.length_singleton]
      omega
    · next hfull =>
      change next = _
      omega

/-- Refilling takes no request away. -/
theorem length_refill (fuel : Nat) (inflight : List PartRange) (next : Nat) :
    inflight.length ≤ (refill job fuel inflight next).1.length := by
  induction fuel generalizing inflight next with
  | zero => exact Nat.le_refl _
  | succ fuel ih =>
    rw [refill]
    split
    · refine Nat.le_trans ?_ (ih _ _)
      rw [List.length_append]
      exact Nat.le_add_right _ _
    · exact Nat.le_refl _

/-- With ranges in flight the client asks for all of them. -/
theorem turn_asks {c : BlockDownload}
    (hasked : (refill job maxInflight c.inflight c.nextReqStart).1 ≠ []) :
    c.turn job = ({ c with
      inflight := (refill job maxInflight c.inflight c.nextReqStart).1
      nextReqStart := (refill job maxInflight c.inflight c.nextReqStart).2 },
      some (refill job maxInflight c.inflight c.nextReqStart).1) := by
  have hsome : (refill job maxInflight c.inflight c.nextReqStart).1.isEmpty = false :=
    List.isEmpty_eq_false_iff.mpr hasked
  simp only [turn, hsome, Bool.false_and, Bool.false_eq_true, if_false]

/-- A part that comes next and lies in a range in flight is accepted. -/
theorem acceptPart_next {c : BlockDownload} {r stop : Nat}
    (hreceived : c.received = prefixOf r) (hbuf : c.hasherBuf.length = job.blockEnd - job.blockStart)
    (hlt : job.blockStart + r < stop) (hstop : stop ≤ job.blockEnd)
    (htotal : job.blockEnd ≤ job.totalBytes) {data : List UInt8}
    (hdata : data.length = stop - (job.blockStart + r)) {range : PartRange}
    (hrange : range ∈ c.inflight) (hleft : range.start ≤ job.blockStart + r)
    (hright : stop ≤ range.endExclusive) :
    c.acceptPart job (job.blockStart + r) stop data =
      .ok { c with
        file := c.file ++ [(job.blockStart + r, data)]
        hasherBuf := c.hasherBuf.take r ++ data ++ c.hasherBuf.drop (r + data.length)
        received := prefixOf (stop - job.blockStart)
        inflight := c.inflight.filter fun r' ↦ stop < r'.endExclusive } := by
  have hinflight : (c.inflight.any fun r' ↦ r'.start ≤ job.blockStart + r &&
      stop ≤ r'.endExclusive) = true :=
    List.any_eq_true.mpr ⟨range, hrange, by simp [hleft, hright]⟩
  have hrel : job.blockStart + r - job.blockStart = r := by omega
  have hmerge : mergeIntervals (prefixOf r ++ [(r, stop - job.blockStart)]) =
      prefixOf (stop - job.blockStart) := mergeIntervals_prefixOf (by omega)
  have hfew := length_prefixOf (stop - job.blockStart)
  rw [acceptPart, if_neg (by omega), if_neg (by omega), hinflight]
  simp only [Bool.not_true, Bool.false_eq_true, if_false, hrel, hreceived, hmerge]
  rw [if_neg (by omega), if_neg (by unfold maxIntervals; omega)]
  congr 2
  apply List.filter_congr
  intro r' _
  rw [intervalCovered_prefixOf, ← decide_not]
  apply decide_eq_decide.mpr
  omega

end BlockDownload

section Frames

variable (content : List UInt8) (inflate : List UInt8 → Option (List UInt8))

/-- The frame carries these bytes of the file. -/
inductive Carries : Ed2kMessage → Nat → Nat → Prop
  | part (start stop : Nat) :
      Carries (.sendingPart start stop (slice content start stop)) start stop
  | packed {bytes : List UInt8} {start stop : Nat}
      (hbytes : inflate bytes = some (slice content start stop)) :
      Carries (.compressedPart start bytes) start stop

variable (ranges : List PartRange)

/-- Frames in order that carry the file from one position to another, each within one of the
ranges. -/
def Pieces : Nat → List Ed2kMessage → Nat → Prop
  | pos, [], stop => pos = stop
  | pos, message :: messages, stop => ∃ next,
      Carries content inflate message pos next ∧ pos < next ∧
        (∃ range ∈ ranges, range.start ≤ pos ∧ next ≤ range.endExclusive) ∧
          Pieces next messages stop

variable {content inflate ranges}

private theorem Pieces.append {pos mid stop : Nat} {messages messages' : List Ed2kMessage}
    (h : Pieces content inflate ranges pos messages mid)
    (h' : Pieces content inflate ranges mid messages' stop) :
    Pieces content inflate ranges pos (messages ++ messages') stop := by
  induction messages generalizing pos with
  | nil =>
    obtain rfl : pos = mid := h
    exact h'
  | cons message messages ih =>
    obtain ⟨next, hcarries, hlt, hrange, hrest⟩ := h
    exact ⟨next, hcarries, hlt, hrange, ih hrest⟩

variable (ranges) in
/-- Ranges the peer still answers: from a position up to another, each the end of one of the
ranges asked for. -/
def Left : Nat → List PartRange → Nat → Prop
  | pos, [], stop => pos = stop
  | pos, r :: rs, stop => r.start = pos ∧ pos < r.endExclusive ∧
      (∃ range ∈ ranges, range.start ≤ pos ∧ r.endExclusive ≤ range.endExclusive) ∧
        Left r.endExclusive rs stop

variable (content inflate) in
/-- What a step of an honest peer can be: nothing, the start of the next request, or a frame
with the first bytes that are left. -/
theorem PeerAnswers.step_cases (p : PeerAnswers) (op : PeerStep) :
    p.step content inflate op = (p, none) ∨
      (p.doing = [] ∧ ∃ request todo, p.todo = request :: todo ∧
        p.step content inflate op = ({ todo, doing := request, fresh := true }, none)) ∨
      ∃ range rest stop message doing fresh, p.doing = range :: rest ∧
        (range.start < range.endExclusive → range.start < stop) ∧ stop ≤ range.endExclusive ∧
        Carries content inflate message range.start stop ∧
        (stop = range.endExclusive ∧ doing = rest ∨
          stop < range.endExclusive ∧ doing = { range with start := stop } :: rest) ∧
        p.step content inflate op = ({ p with doing, fresh }, some message) := by
  cases op with
  | next =>
    rw [PeerAnswers.step]
    split
    · next hdoing htodo => exact .inr (.inl ⟨hdoing, _, _, htodo, rfl⟩)
    · exact .inl rfl
  | part len =>
    rw [PeerAnswers.step]
    split
    · exact .inl rfl
    · next range rest hdoing =>
      split
      · next hlen =>
        by_cases hstop : range.start + len = range.endExclusive
        · exact .inr (.inr ⟨range, rest, range.start + len, _, _, _, hdoing, by omega, hlen.2,
            .part _ _, .inl ⟨hstop, rfl⟩, if_pos hstop⟩)
        · exact .inr (.inr ⟨range, rest, range.start + len, _, _, _, hdoing, by omega, hlen.2,
            .part _ _, .inr ⟨by omega, rfl⟩, if_neg hstop⟩)
      · exact .inl rfl
  | packed bytes =>
    rw [PeerAnswers.step]
    split
    · exact .inl rfl
    · next range rest hdoing =>
      split
      · next hbytes =>
        exact .inr (.inr ⟨range, rest, range.endExclusive, _, _, _, hdoing, id, Nat.le_refl _,
          .packed hbytes.2, .inl ⟨rfl, rfl⟩, rfl⟩)
      · exact .inl rfl

end Frames

namespace BlockExchange

open BlockDownload

variable {job : BlockJob} {content : List UInt8}

/-- The first request. -/
def firstRequest (job : BlockJob) : List PartRange :=
  (refill job maxInflight [] job.blockStart).1

/-- The bytes of the block. -/
def block (job : BlockJob) (content : List UInt8) : List UInt8 :=
  slice content job.blockStart job.blockEnd

/-- The client has the first bytes of the block, and every range it does not have yet is in
flight. -/
structure Fetching (job : BlockJob) (content : List UInt8) (c : BlockDownload) (r : Nat) :
    Prop where
  result : c.result = none
  waitingAccept : c.waitingAccept = false
  received : c.received = prefixOf r
  length : c.hasherBuf.length = job.blockEnd - job.blockStart
  hasherBuf : c.hasherBuf.take r = (block job content).take r
  nextReqStart : c.nextReqStart = job.blockEnd
  inflight : ∀ range ∈ firstRequest job, job.blockStart + r < range.endExclusive →
    range ∈ c.inflight
  delivered : ∀ d ∈ c.delivered, d.2 ≤ job.blockStart + r

/-- The frames on the wire and the ranges the peer answers go on where the client stands; what
comes after the whole block does not matter. -/
def Supplied (job : BlockJob) (content : List UInt8) (s : BlockExchange) (pos : Nat) : Prop :=
  ∃ pieces rest stop, s.wire = pieces ++ rest ∧
    Pieces content job.inflate (firstRequest job) pos pieces stop ∧
      (stop = job.blockEnd ∨ rest = [] ∧
        (Left (firstRequest job) stop s.peer.doing job.blockEnd ∨
          stop = job.blockStart ∧ s.peer.doing = [] ∧
            ∃ todo, s.peer.todo = firstRequest job :: todo))

/-- The download has ended, and nobody is to blame for it. -/
inductive Ended (job : BlockJob) (content : List UInt8) (c : BlockDownload) : Prop
  | complete (h : c.result = some (.ok (job.hashPart (block job content))))
  | failed (e : DownloadError) (h : c.result = some (.error e)) (hblame : e.isIntegrity = false)
      (i : Nat) (hstart : job.blockStart ≤ i) (hend : i < job.blockEnd)
      (hmissing : ∀ d ∈ c.delivered, ¬(d.1 ≤ i ∧ i < d.2))

/-- What a run with an honest peer keeps. -/
def Blameless (job : BlockJob) (content : List UInt8) (s : BlockExchange) : Prop :=
  (∃ r, job.blockStart + r < job.blockEnd ∧ Fetching job content s.client r ∧
    Supplied job content s (job.blockStart + r)) ∨ Ended job content s.client

private theorem Ended.isSome {c : BlockDownload} (h : Ended job content c) :
    c.result.isSome = true := by
  cases h with
  | complete h => rw [h]; rfl
  | failed e h => rw [h]; rfl

/-- Failing before the block is complete, other than for the peer's fault. -/
theorem Fetching.fail {c : BlockDownload} {r : Nat} (h : Fetching job content c r)
    (hr : job.blockStart + r < job.blockEnd) {e : DownloadError} (he : e.isIntegrity = false) :
    Ended job content (c.fail e) := by
  refine .failed e rfl he (job.blockStart + r) (Nat.le_add_right _ _) hr ?_
  intro d hd hcovered
  have hbefore : d.2 ≤ job.blockStart + r := h.delivered d hd
  omega

/-- An answered range that follows. -/
theorem left_of_full {pos stop : Nat} {rs : List PartRange}
    (h : Full job pos rs stop) {ranges : List PartRange} (hsub : ∀ r ∈ rs, r ∈ ranges) :
    Left ranges pos rs stop := by
  have hblock : 0 < blockSize := by decide
  induction rs generalizing pos with
  | nil => exact h
  | cons r rs ih =>
    obtain ⟨hstart, hlt, hend, hrest⟩ := h
    refine ⟨hstart, by omega, ⟨r, hsub r (List.mem_cons_self ..), by omega, Nat.le_refl _⟩, ?_⟩
    exact ih hrest fun r' hr' ↦ hsub r' (List.mem_cons_of_mem _ hr')

private theorem full_firstRequest (hblock : job.blockStart ≤ job.blockEnd)
    (hfits : job.blockEnd - job.blockStart ≤ maxInflight * blockSize) :
    Full job job.blockStart (firstRequest job) job.blockEnd := by
  have hnone : Full job job.blockStart [] job.blockStart := rfl
  have hfull := hnone.refill maxInflight
  rw [refill_next _ hblock (Nat.le_refl _), Nat.min_eq_right (by omega)] at hfull
  exact hfull

section Fits

variable (hfull : Full job job.blockStart (firstRequest job) job.blockEnd)

include hfull

/-- A step of the peer keeps the client supplied. -/
theorem Supplied.peer {s : BlockExchange} {pos : Nat} (h : Supplied job content s pos)
    (op : PeerStep) : Supplied job content (s.step job content (.peer op)) pos := by
  obtain ⟨pieces, rest, stop, hwire, hpieces, hpeer⟩ := h
  rcases s.peer.step_cases content job.inflate op with
    hidle | ⟨hdoing, request, todo, htodo, hnext⟩ |
      ⟨range, others, next, message, doing, fresh, hdoing, hlt, hle, hcarries, hleft, hsent⟩
  · rw [step, hidle]
    exact ⟨pieces, rest, stop, by rw [hwire]; exact List.append_nil _, hpieces, hpeer⟩
  · rw [step, hnext]
    refine ⟨pieces, rest, stop, by rw [hwire]; exact List.append_nil _, hpieces, ?_⟩
    rcases hpeer with hstop | ⟨hrest, hanswering | ⟨hstop, -, todo', htodo'⟩⟩
    · exact .inl hstop
    · rw [hdoing] at hanswering
      exact .inl hanswering
    · refine .inr ⟨hrest, .inl ?_⟩
      rw [htodo, List.cons.injEq] at htodo'
      rw [hstop, htodo'.1]
      exact left_of_full hfull fun _ hr ↦ hr
  · rw [step, hsent]
    rcases hpeer with hstop | ⟨rfl, hanswering | ⟨-, hnone, -⟩⟩
    · exact ⟨pieces, rest ++ [message], stop, by simp [hwire], hpieces, .inl hstop⟩
    · rw [hdoing] at hanswering
      obtain ⟨rfl, hlt', ⟨range', hrange', hstart, hend⟩, hothers⟩ := hanswering
      have hone : Pieces content job.inflate (firstRequest job) range.start [message] next :=
        ⟨next, hcarries, hlt hlt', ⟨range', hrange', hstart, by omega⟩, rfl⟩
      refine ⟨pieces ++ [message], [], next, by simp [hwire], hpieces.append hone,
        .inr ⟨rfl, .inl ?_⟩⟩
      rcases hleft with ⟨rfl, rfl⟩ | ⟨hbefore, rfl⟩
      · exact hothers
      · exact ⟨rfl, hbefore, ⟨range', hrange', by have := hlt hlt'; omega, hend⟩, hothers⟩
    · rw [hdoing] at hnone
      cases hnone

private theorem blameless_new (hblock : job.blockStart < job.blockEnd)
    (hfits : job.blockEnd - job.blockStart ≤ maxInflight * blockSize) :
    Blameless job content (new job) := by
  have hnext : (refill job maxInflight [] job.blockStart).2 = job.blockEnd := by
    rw [refill_next _ (by omega) (Nat.le_refl _)]
    omega
  have hasked : firstRequest job ≠ [] := by
    intro hempty
    rw [hempty] at hfull
    have hnone : job.blockStart = job.blockEnd := hfull
    omega
  have hturn := turn_asks (c := BlockDownload.new job) hasked
  refine .inl ⟨0, hblock, ?_⟩
  rw [new, hturn]
  refine ⟨?_, [], [], job.blockStart, rfl, rfl, .inr ⟨rfl, .inr ⟨rfl, rfl, [], rfl⟩⟩⟩
  exact {
    result := rfl
    waitingAccept := rfl
    received := rfl
    length := List.length_replicate
    hasherBuf := rfl
    nextReqStart := hnext
    inflight := fun _ hrange _ ↦ hrange
    delivered := fun d hd ↦ nomatch hd
  }

variable (htotal : job.blockEnd ≤ job.totalBytes) (hcontent : job.totalBytes = content.length)

include htotal hcontent

private theorem Fetching.takePart {c : BlockDownload} {r next : Nat}
    (h : Fetching job content c r) (hlt : job.blockStart + r < next)
    (hrange : ∃ range ∈ firstRequest job, range.start ≤ job.blockStart + r ∧
      next ≤ range.endExclusive) :
    Fetching job content
      (c.takePart job (job.blockStart + r) next (slice content (job.blockStart + r) next))
      (next - job.blockStart) := by
  obtain ⟨range, hmem, hleft, hright⟩ := hrange
  have hspec := hfull.mem hmem
  have hdata : (slice content (job.blockStart + r) next).length = next - (job.blockStart + r) :=
    length_slice (by omega)
  have hrel : job.blockStart + (next - job.blockStart) = next := by omega
  have hblock : (block job content).take (next - job.blockStart) =
      (block job content).take r ++ slice content (job.blockStart + r) next := by
    have hpart : ((slice content job.blockStart job.blockEnd).drop
        (job.blockStart + r - job.blockStart)).take (next - (job.blockStart + r)) =
          slice content (job.blockStart + r) next := take_drop_slice (by omega) (by omega)
    rw [← hpart, Nat.add_sub_cancel_left, block, ← List.take_add]
    congr 1
    omega
  have htaken : (c.hasherBuf.take r).length = r := by
    rw [List.length_take, h.length]
    omega
  have haccepted := acceptPart_next
    (c := { c with delivered := c.delivered ++ [(job.blockStart + r, next)] }) h.received h.length
    hlt (by omega) htotal hdata (h.inflight range hmem (by omega)) hleft hright
  rw [BlockDownload.takePart, haccepted]
  exact {
    result := h.result
    waitingAccept := h.waitingAccept
    received := rfl
    length := by
      rw [List.length_append, List.length_append, htaken, hdata, List.length_drop, h.length]
      omega
    hasherBuf := by
      have hboth : (c.hasherBuf.take r ++ slice content (job.blockStart + r) next).length =
          next - job.blockStart := by
        rw [List.length_append, htaken, hdata]
        omega
      rw [List.take_left' hboth, h.hasherBuf, hblock]
    nextReqStart := h.nextReqStart
    inflight := by
      intro range' hmem' hafter
      rw [hrel] at hafter
      exact List.mem_filter.mpr
        ⟨h.inflight range' hmem' (by omega), decide_eq_true hafter⟩
    delivered := by
      intro d hd
      rw [hrel]
      rcases List.mem_append.mp hd with hd | hd
      · have hbefore : d.2 ≤ job.blockStart + r := h.delivered d hd
        omega
      · rw [List.mem_singleton.mp hd]
  }

/-- A true frame that comes next is accepted, or the download fails for another reason. -/
theorem Fetching.dispatch {c : BlockDownload} {r next : Nat}
    (h : Fetching job content c r) {message : Ed2kMessage}
    (hcarries : Carries content job.inflate message (job.blockStart + r) next)
    (hlt : job.blockStart + r < next)
    (hrange : ∃ range ∈ firstRequest job, range.start ≤ job.blockStart + r ∧
      next ≤ range.endExclusive) :
    (∃ e, c.dispatch job message = c.fail e ∧ e.isIntegrity = false) ∨
      Fetching job content (c.dispatch job message) (next - job.blockStart) := by
  have htaken := h.takePart hfull htotal hcontent hlt hrange
  cases hcarries with
  | part =>
    simp only [BlockDownload.dispatch, h.waitingAccept, Bool.false_eq_true, if_false]
    split
    · exact .inl ⟨_, rfl, rfl⟩
    · exact .inr htaken
  | packed hbytes =>
    have hnext : job.blockStart + r + (slice content (job.blockStart + r) next).length = next := by
      obtain ⟨range, hmem, -, hright⟩ := hrange
      have hspec := hfull.mem hmem
      rw [length_slice (by omega)]
      omega
    simp only [BlockDownload.dispatch, h.waitingAccept, decompressBounded, hbytes,
      Bool.false_eq_true, if_false]
    split
    · exact .inl ⟨_, rfl, rfl⟩
    by_cases hbomb : blockSize + 1024 < (slice content (job.blockStart + r) next).length
    · rw [if_pos hbomb]
      exact .inl ⟨_, rfl, rfl⟩
    · rw [if_neg hbomb]
      simp only [hnext]
      exact .inr htaken

omit hfull htotal in
/-- The block is complete, or the client asks for what is missing. -/
theorem Fetching.goOn {c : BlockDownload} {r : Nat} (h : Fetching job content c r)
    (hpos : 0 < r) (hr : job.blockStart + r ≤ job.blockEnd)
    (htotal : job.blockEnd ≤ job.totalBytes) :
    (receivedCovers c.received (job.blockEnd - job.blockStart) = true ∧
        Ended job content (c.complete job)) ∨
      (receivedCovers c.received (job.blockEnd - job.blockStart) = false ∧
        job.blockStart + r < job.blockEnd ∧ (c.turn job).1 = c) := by
  have hcovers : receivedCovers c.received (job.blockEnd - job.blockStart) =
      decide (r ≠ 0 ∧ job.blockEnd - job.blockStart ≤ r) := by
    rw [h.received, receivedCovers_prefixOf]
  by_cases hall : job.blockStart + r = job.blockEnd
  · refine .inl ⟨hcovers.trans (decide_eq_true (by omega)), .complete ?_⟩
    have hbuf : c.hasherBuf = block job content := by
      have htake := h.hasherBuf
      rwa [List.take_of_length_le, List.take_of_length_le] at htake
      · rw [block, length_slice (by omega)]
        omega
      · rw [h.length]
        omega
    rw [BlockDownload.complete, hbuf]
  · have hcovers' : receivedCovers c.received (job.blockEnd - job.blockStart) = false :=
      hcovers.trans (decide_eq_false (by omega))
    refine .inr ⟨hcovers', by omega, ?_⟩
    rw [turn, h.nextReqStart, refill_end]
    simp only [hcovers', Bool.and_false, Bool.false_eq_true, if_false]
    rw [← h.nextReqStart]
    split <;> rfl

private theorem Fetching.read {c : BlockDownload} {r next : Nat} (h : Fetching job content c r)
    (hr : job.blockStart + r < job.blockEnd) {message : Ed2kMessage}
    (hcarries : Carries content job.inflate message (job.blockStart + r) next)
    (hlt : job.blockStart + r < next)
    (hrange : ∃ range ∈ firstRequest job, range.start ≤ job.blockStart + r ∧
      next ≤ range.endExclusive) :
    Ended job content (c.read job message).1 ∨
      (next < job.blockEnd ∧
        Fetching job content (c.read job message).1 (next - job.blockStart)) := by
  have hend : next ≤ job.blockEnd := by
    obtain ⟨range, hmem, -, hright⟩ := hrange
    have hspec := hfull.mem hmem
    omega
  rw [BlockDownload.read]
  rcases h.dispatch hfull htotal hcontent hcarries hlt hrange with ⟨e, hfailed, he⟩ | hfetching
  · rw [hfailed]
    exact .inl (h.fail hr he)
  · simp only [hfetching.result, hfetching.waitingAccept, Option.isSome_none, Bool.or_self,
      Bool.false_eq_true, if_false]
    rcases hfetching.goOn hcontent (by omega) (by omega) htotal with
      ⟨hcovers, hended⟩ | ⟨hcovers, hmore, hturn⟩
    · rw [if_pos hcovers]
      exact .inl hended
    · rw [if_neg (by rw [hcovers]; exact Bool.false_ne_true), hturn]
      exact .inr ⟨by omega, hfetching⟩

private theorem Blameless.step {s : BlockExchange} (h : Blameless job content s)
    (op : ExchangeOp) : Blameless job content (s.step job content op) := by
  have hinterrupt : ∀ e : DownloadError, e.isIntegrity = false →
      Blameless job content (s.interrupt e) := by
    intro e he
    rcases h with ⟨r, hr, hfetching, -⟩ | hended
    · rw [interrupt, hfetching.result]
      exact .inr (hfetching.fail hr he)
    · rw [interrupt, if_pos hended.isSome]
      exact .inr hended
  cases op with
  | peer op =>
    rcases h with ⟨r, hr, hfetching, hsupplied⟩ | hended
    · exact .inl ⟨r, hr, hfetching, hsupplied.peer hfull op⟩
    · exact .inr hended
  | read =>
    rcases h with ⟨r, hr, hfetching, pieces, rest, stop, hwire, hpieces, hpeer⟩ | hended
    · rw [BlockExchange.step, hfetching.result, hwire]
      cases pieces with
      | nil =>
        -- All that is on the wire has been read, and the block is not complete.
        obtain rfl : job.blockStart + r = stop := hpieces
        rcases hpeer with hstop | ⟨rfl, hpeer⟩
        · omega
        · exact .inl ⟨r, hr, hfetching, [], [], _, hwire, rfl, .inr ⟨rfl, hpeer⟩⟩
      | cons message pieces =>
        obtain ⟨next, hcarries, hlt, hrange, hpieces⟩ := hpieces
        rcases hfetching.read hfull htotal hcontent hr hcarries hlt hrange with
          hended | ⟨hmore, hfetching'⟩
        · exact .inr hended
        · have hrel : job.blockStart + (next - job.blockStart) = next := by omega
          refine .inl ⟨next - job.blockStart, by omega, hfetching', pieces, rest, stop, rfl, ?_, ?_⟩
          · rw [hrel]
            exact hpieces
          · rcases hpeer with hstop | ⟨hrest, hanswering | ⟨hstop, hdoing, todo, htodo⟩⟩
            · exact .inl hstop
            · exact .inr ⟨hrest, .inl hanswering⟩
            · exact .inr ⟨hrest, .inr ⟨hstop, hdoing, todo ++ (s.client.read job message).2.toList,
                congrArg (· ++ _) htodo⟩⟩
    · rw [BlockExchange.step, if_pos hended.isSome]
      exact .inr hended
  | stall => exact hinterrupt _ rfl
  | io => exact hinterrupt _ rfl
  | cancel => exact hinterrupt _ rfl

end Fits

/-- What an honest peer may expect: it is never blamed, and the block is complete as soon as all
of its bytes were delivered. -/
def HonestOutcome (job : BlockJob) (content : List UInt8) (s : BlockExchange) : Prop :=
  (∀ e, s.client.result = some (.error e) → e.isIntegrity = false) ∧
    ((∀ i, job.blockStart ≤ i → i < job.blockEnd →
        ∃ d ∈ s.client.delivered, d.1 ≤ i ∧ i < d.2) →
      s.client.result = some (.ok (job.hashPart (block job content))))

private theorem Blameless.outcome {s : BlockExchange} (h : Blameless job content s) :
    HonestOutcome job content s := by
  rcases h with ⟨r, hr, hfetching, -⟩ | hended
  · constructor
    · intro e he
      rw [hfetching.result] at he
      cases he
    · intro hall
      obtain ⟨d, hd, -, hafter⟩ := hall (job.blockStart + r) (Nat.le_add_right _ _) hr
      have hbefore : d.2 ≤ job.blockStart + r := hfetching.delivered d hd
      omega
  · cases hended with
    | complete h =>
      constructor
      · intro e he
        rw [h] at he
        cases he
      · exact fun _ ↦ h
    | failed e h hblame i hstart hend hmissing =>
      constructor
      · intro e' he
        rw [h] at he
        cases he
        exact hblame
      · intro hall
        obtain ⟨d, hd, hcovered⟩ := hall i hstart hend
        exact absurd hcovered (hmissing d hd)

/-- While the block fits into one request, an honest peer gets what it may expect. -/
theorem honestOutcome_of_fits (hblock : job.blockStart < job.blockEnd)
    (hfits : job.blockEnd - job.blockStart ≤ maxInflight * blockSize)
    (htotal : job.blockEnd ≤ job.totalBytes) (hcontent : job.totalBytes = content.length)
    (ops : List ExchangeOp) : HonestOutcome job content (run (step job content) (new job) ops) := by
  have hfull := full_firstRequest (Nat.le_of_lt hblock) hfits
  have hrun : Blameless job content (run (step job content) (new job) ops) :=
    run_preserves (fun _ op h ↦ h.step hfull htotal hcontent op)
      (blameless_new hfull hblock hfits) ops
  exact hrun.outcome

end BlockExchange

end Ed2k
