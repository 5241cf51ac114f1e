import FluxDown.Ed2k.HonestPeer

/-!
# An honest peer that is blamed

Library `Ed2k`. A block of more than three full ranges: after its first range the client asks
for the second one again, and gets it again after it has all of the first request. The second
range is then no longer in flight, and the peer is blacklisted for having answered.
-/

namespace Ed2k

open Base

namespace BlockDownload

variable {job : BlockJob}

private theorem refill_ne_nil (fuel : Nat) {inflight : List PartRange} {pos next : Nat}
    (hfull : Full job pos inflight next) (hpos : pos < job.blockEnd) :
    (refill job (fuel + 1) inflight next).1 ≠ [] := by
  cases inflight with
  | cons first rest =>
    have hlength : (first :: rest).length ≤ (refill job (fuel + 1) (first :: rest) next).1.length :=
      length_refill (fuel + 1) _ next
    rw [List.length_cons] at hlength
    exact List.ne_nil_of_length_pos (by omega)
  | nil =>
    obtain rfl : pos = next := hfull
    have hroom : ([] : List PartRange).length < maxInflight ∧ pos < job.blockEnd :=
      ⟨by decide, hpos⟩
    rw [refill, if_pos hroom]
    exact List.ne_nil_of_length_pos
      (length_refill fuel [PartRange.mk pos (min (pos + blockSize) job.blockEnd)] _)

/-- The first range of a chain that goes on after it. -/
theorem Full.head {pos stop : Nat} {rs : List PartRange} (h : Full job pos rs stop)
    (hrs : rs ≠ []) (hroom : pos + blockSize ≤ job.blockEnd) :
    ∃ rest, rs = { start := pos, endExclusive := pos + blockSize } :: rest ∧
      Full job (pos + blockSize) rest stop := by
  cases rs with
  | nil => exact absurd rfl hrs
  | cons r rest =>
    obtain ⟨hstart, -, hend, hrest⟩ := h
    rw [Nat.min_eq_left hroom] at hend
    rw [hend] at hrest
    refine ⟨rest, ?_, hrest⟩
    rw [← hstart] at hend ⊢
    rw [← hend]

private theorem Full.le {pos stop : Nat} {rs : List PartRange} (h : Full job pos rs stop) :
    pos ≤ stop := by
  induction rs generalizing pos with
  | nil => exact Nat.le_of_eq h
  | cons r rs ih =>
    obtain ⟨-, hlt, hend, hrest⟩ := h
    have hle := ih hrest
    omega

private theorem payloadLen_sendingPart (largeFile : Bool) (start stop : Nat)
    (data : List UInt8) :
    (Ed2kMessage.sendingPart start stop data).payloadLen largeFile ≤ 32 + data.length := by
  rw [Ed2kMessage.payloadLen]
  cases largeFile
  · change 24 + data.length ≤ _
    omega
  · exact Nat.le_refl _

private theorem dispatch_part {c : BlockDownload} (hwait : c.waitingAccept = false)
    {start stop : Nat} {data : List UInt8} (hsize : data.length ≤ blockSize) :
    c.dispatch job (.sendingPart start stop data) = c.takePart job start stop data := by
  have hframe : ¬maxPeerFrame <
      (Ed2kMessage.sendingPart start stop data).payloadLen job.largeFile := by
    have hpayload := payloadLen_sendingPart job.largeFile start stop data
    have hmax : maxPeerFrame = blockSize + 1024 := rfl
    omega
  simp only [dispatch, if_neg hframe, hwait, Bool.false_eq_true, if_false]

/-- A part is accepted and the block is not complete: the client goes round again. -/
theorem read_accepted {c c' : BlockDownload} (hwait : c.waitingAccept = false)
    {start stop : Nat} {data : List UInt8} (hsize : data.length ≤ blockSize)
    (haccepted : { c with delivered := c.delivered ++ [(start, stop)] }.acceptPart job start stop
      data = .ok c')
    (hresult : c'.result = none) (hwait' : c'.waitingAccept = false)
    (hmore : receivedCovers c'.received (job.blockEnd - job.blockStart) = false) :
    c.read job (.sendingPart start stop data) = c'.turn job := by
  simp only [read, dispatch_part hwait hsize, takePart, haccepted, hresult, hwait', hmore,
    Option.isSome_none, Bool.or_self, Bool.false_eq_true, if_false]

/-- A part is refused. -/
theorem read_refused {c : BlockDownload} (hwait : c.waitingAccept = false)
    {start stop : Nat} {data : List UInt8} (hsize : data.length ≤ blockSize) {e : DownloadError}
    (hrefused : { c with delivered := c.delivered ++ [(start, stop)] }.acceptPart job start stop
      data = .error e) :
    ∃ c', c.read job (.sendingPart start stop data) = (c', none) ∧
      c'.result = some (.error e) := by
  simp only [read, dispatch_part hwait hsize, takePart, hrefused, fail, Option.isSome_some,
    Bool.true_or, if_true]
  exact ⟨_, rfl, rfl⟩

end BlockDownload

namespace BlockExchange

open BlockDownload

variable {job : BlockJob} {content : List UInt8}

/-- The client has read the first ranges of the block, each in one frame, and has asked for the
next ones. -/
structure Asking (job : BlockJob) (c : BlockDownload) (k : Nat) : Prop where
  result : c.result = none
  waitingAccept : c.waitingAccept = false
  received : c.received = prefixOf (k * blockSize)
  length : c.hasherBuf.length = job.blockEnd - job.blockStart
  asked : c.inflight ≠ []
  inflight : Full job (job.blockStart + k * blockSize) c.inflight c.nextReqStart

private theorem asking_new (hblock : job.blockStart < job.blockEnd) :
    Asking job ((BlockDownload.new job).turn job).1 0 ∧
      (BlockExchange.new job).peer.todo = [firstRequest job] := by
  have hnone : Full job job.blockStart [] job.blockStart := rfl
  have hasked : firstRequest job ≠ [] := refill_ne_nil 2 hnone hblock
  have hturn := turn_asks (c := BlockDownload.new job) hasked
  rw [BlockExchange.new, hturn]
  exact ⟨{
    result := rfl
    waitingAccept := rfl
    received := rfl
    length := List.length_replicate
    asked := hasked
    inflight := by
      rw [Nat.zero_mul]
      exact hnone.refill maxInflight
  }, rfl⟩

variable (job content) in
/-- The peer sends a range in one frame and the client reads it. -/
theorem run_part {s : BlockExchange} (hresult : s.client.result = none)
    (hwire : s.wire = []) {start len : Nat} (hpos : 0 < len) {rest : List PartRange}
    (hdoing : s.peer.doing = { start, endExclusive := start + len } :: rest)
    {c' : BlockDownload} {request : Option (List PartRange)}
    (hread : s.client.read job (.sendingPart start (start + len)
      (slice content start (start + len))) = (c', request)) :
    run (step job content) s [.peer (.part len), .read] =
      { client := c'
        peer := { todo := s.peer.todo ++ request.toList, doing := rest, fresh := true }
        wire := [] } := by
  have hlen : 0 < len ∧ start + len ≤ start + len := ⟨hpos, Nat.le_refl _⟩
  simp only [run_cons, run_nil, step, PeerAnswers.step, hdoing, if_pos hlen, if_true, hwire,
    List.nil_append, Option.toList_some, hresult, Option.isSome_none, Bool.false_eq_true, if_false,
    hread, send]

section Long

variable (hlong : job.blockStart + maxInflight * blockSize < job.blockEnd)
  (htotal : job.blockEnd ≤ job.totalBytes) (hcontent : job.totalBytes = content.length)

include hlong htotal hcontent

/-- After the next range the client has one range less in flight and asks again. -/
theorem Asking.read {c : BlockDownload} {k : Nat} (h : Asking job c k)
    (hk : k < maxInflight) :
    ∃ c', c.read job (.sendingPart (job.blockStart + k * blockSize)
        (job.blockStart + k * blockSize + blockSize)
        (slice content (job.blockStart + k * blockSize)
          (job.blockStart + k * blockSize + blockSize))) = (c', some c'.inflight) ∧
      Asking job c' (k + 1) := by
  have hblock : 0 < blockSize := by decide
  have hmul : (k + 1) * blockSize ≤ maxInflight * blockSize := Nat.mul_le_mul_right _ hk
  have hsucc : (k + 1) * blockSize = k * blockSize + blockSize := Nat.succ_mul ..
  have hpos : job.blockStart + (k + 1) * blockSize =
      job.blockStart + k * blockSize + blockSize := by omega
  have hlt : job.blockStart + k * blockSize < job.blockStart + k * blockSize + blockSize :=
    Nat.lt_add_of_pos_right hblock
  obtain ⟨others, hfirst, hothers⟩ := h.inflight.head h.asked (by omega)
  have hdata : (slice content (job.blockStart + k * blockSize)
      (job.blockStart + k * blockSize + blockSize)).length = blockSize := by
    rw [length_slice (by omega)]
    omega
  have hmem : PartRange.mk (job.blockStart + k * blockSize)
      (job.blockStart + k * blockSize + blockSize) ∈ c.inflight := by
    rw [hfirst]
    exact List.mem_cons_self ..
  have haccepted := acceptPart_next (c := { c with delivered := c.delivered ++
    [(job.blockStart + k * blockSize, job.blockStart + k * blockSize + blockSize)] })
    h.received h.length hlt (by omega) htotal (hdata.trans (by omega)) hmem
    (Nat.le_refl _) (Nat.le_refl _)
  have hkept : (c.inflight.filter fun r ↦
      decide (job.blockStart + k * blockSize + blockSize < r.endExclusive)) = others := by
    rw [hfirst, List.filter_cons_of_neg (by simp)]
    refine List.filter_eq_self.mpr fun r hr ↦ decide_eq_true ?_
    have hspec := hothers.mem hr
    omega
  have hreceived : job.blockStart + k * blockSize + blockSize - job.blockStart =
      (k + 1) * blockSize := by omega
  simp only [hkept, hreceived] at haccepted
  have hmore : receivedCovers (prefixOf ((k + 1) * blockSize))
      (job.blockEnd - job.blockStart) = false := by
    rw [receivedCovers_prefixOf]
    exact decide_eq_false (by omega)
  have hread := read_accepted h.waitingAccept (Nat.le_of_eq hdata) haccepted h.result
    h.waitingAccept hmore
  have hasked := refill_ne_nil 2 hothers (by omega)
  rw [hread, turn_asks hasked]
  refine ⟨_, rfl, ?_⟩
  exact {
    result := h.result
    waitingAccept := h.waitingAccept
    received := rfl
    length := by
      have hwithin : k * blockSize + blockSize ≤ job.blockEnd - job.blockStart := by omega
      simp only [List.length_append, List.length_take, List.length_drop, h.length, hdata]
      rw [Nat.min_eq_left (Nat.le_of_add_right_le hwithin), Nat.add_sub_of_le hwithin]
    asked := hasked
    inflight := by
      rw [hpos]
      exact hothers.refill maxInflight
  }

end Long

/-- The first request in three frames, the first range of the second in one. -/
def blamingRun : List ExchangeOp :=
  .peer .next :: ([.peer (.part blockSize), .read] ++ ([.peer (.part blockSize), .read] ++
    ([.peer (.part blockSize), .read] ++ [.peer .next, .peer (.part blockSize), .read])))

/-- The peer has answered the first ranges of the first request, and the client has read the
answers. -/
structure Serving (job : BlockJob) (s : BlockExchange) (k : Nat) : Prop where
  client : Asking job s.client k
  wire : s.wire = []
  doing : Full job (job.blockStart + k * blockSize) s.peer.doing
    (job.blockStart + maxInflight * blockSize)

section Long

variable (hlong : job.blockStart + maxInflight * blockSize < job.blockEnd)
  (htotal : job.blockEnd ≤ job.totalBytes) (hcontent : job.totalBytes = content.length)

include hlong htotal hcontent

/-- The peer sends the next range, the client reads it and sends another request. -/
theorem Serving.round {s : BlockExchange} {k : Nat} (h : Serving job s k)
    (hk : k < maxInflight) :
    Serving job (run (step job content) s [.peer (.part blockSize), .read]) (k + 1) ∧
      (run (step job content) s [.peer (.part blockSize), .read]).peer.todo = s.peer.todo ++
        [(run (step job content) s [.peer (.part blockSize), .read]).client.inflight] := by
  have hblock : 0 < blockSize := by decide
  have hmul : (k + 1) * blockSize ≤ maxInflight * blockSize := Nat.mul_le_mul_right _ hk
  have hsucc : (k + 1) * blockSize = k * blockSize + blockSize := Nat.succ_mul ..
  have hpos : job.blockStart + (k + 1) * blockSize =
      job.blockStart + k * blockSize + blockSize := by omega
  have hdoing : s.peer.doing ≠ [] := by
    intro hnone
    have hend := h.doing
    rw [hnone] at hend
    have hsame : job.blockStart + k * blockSize = job.blockStart + maxInflight * blockSize := hend
    omega
  obtain ⟨rest, hhead, hrest⟩ := h.doing.head hdoing (by omega)
  obtain ⟨c', hread, hclient⟩ := h.client.read hlong htotal hcontent hk
  rw [run_part job content h.client.result h.wire (by decide) hhead hread]
  refine ⟨⟨hclient, rfl, ?_⟩, rfl⟩
  rw [hpos]
  exact hrest

/-- The second range comes a second time. -/
theorem Serving.blamed {s : BlockExchange} (h : Serving job s maxInflight)
    {request : List PartRange} {todo : List (List PartRange)} {stop : Nat}
    (htodo : s.peer.todo = request :: todo) (hrequest : request ≠ [])
    (hfull : Full job (job.blockStart + blockSize) request stop) :
    (run (step job content) s [.peer .next, .peer (.part blockSize), .read]).client.result =
      some (.error (.ed2kIntegrity "unrequested data received")) := by
  have hblock : 0 < blockSize := by decide
  have hmul : maxInflight * blockSize = blockSize + blockSize + blockSize := by
    rw [maxInflight]
    omega
  obtain ⟨rest, hhead, -⟩ := hfull.head hrequest (by omega)
  have hdoing : s.peer.doing = [] := by
    cases hranges : s.peer.doing with
    | nil => rfl
    | cons r rs =>
      have hend := h.doing
      rw [hranges] at hend
      obtain ⟨-, hlt, hnext, hrest⟩ := hend
      have hle := hrest.le
      omega
  have hnext : s.step job content (.peer .next) =
      { s with peer := { todo, doing := request, fresh := true } } := by
    simp only [step, PeerAnswers.step, hdoing, htodo, Option.toList_none, List.append_nil]
  have hdata : (slice content (job.blockStart + blockSize)
      (job.blockStart + blockSize + blockSize)).length = blockSize := by
    rw [length_slice (by omega)]
    omega
  have hrefused : { s.client with delivered := s.client.delivered ++
      [(job.blockStart + blockSize, job.blockStart + blockSize + blockSize)] }.acceptPart job
      (job.blockStart + blockSize) (job.blockStart + blockSize + blockSize)
      (slice content (job.blockStart + blockSize) (job.blockStart + blockSize + blockSize)) =
        .error (.ed2kIntegrity "unrequested data received") := by
    -- All that is in flight comes after the first request.
    have hnone : (s.client.inflight.any fun r ↦ r.start ≤ job.blockStart + blockSize &&
        job.blockStart + blockSize + blockSize ≤ r.endExclusive) = false := by
      refine List.any_eq_false.mpr fun r hr ↦ ?_
      have hspec := h.client.inflight.mem hr
      rw [Bool.and_eq_true, decide_eq_true_iff]
      omega
    rw [acceptPart, if_neg (by omega), if_neg (by omega), hnone]
    simp only [Bool.not_false, if_true]
  obtain ⟨c', hread, hresult⟩ := read_refused h.client.waitingAccept (Nat.le_of_eq hdata) hrefused
  have hran := run_part job content
    (s := { s with peer := { todo, doing := request, fresh := true } }) h.client.result h.wire
    (by decide) hhead hread
  rw [run_cons, hnext, hran]
  exact hresult

omit htotal hcontent in
/-- The peer begins to answer the first request. -/
theorem serving_begin :
    Serving job ((new job).step job content (.peer .next)) 0 ∧
      ((new job).step job content (.peer .next)).peer.todo = [] := by
  obtain ⟨hclient, htodo⟩ := asking_new (by omega : job.blockStart < job.blockEnd)
  have hnext : (new job).step job content (.peer .next) =
      { new job with peer := { todo := [], doing := firstRequest job, fresh := true } } := by
    have hdoing : (new job).peer.doing = [] := rfl
    simp only [step, PeerAnswers.step, hdoing, htodo, Option.toList_none, List.append_nil]
  have hnone : Full job job.blockStart [] job.blockStart := rfl
  have hfirst := hnone.refill maxInflight
  rw [refill_next _ (by omega) (Nat.le_refl _), Nat.min_eq_left (by omega)] at hfirst
  rw [hnext]
  refine ⟨⟨hclient, rfl, ?_⟩, rfl⟩
  rw [Nat.zero_mul]
  exact hfirst

/-- A peer that answers each range with one frame is blamed for the second request. -/
theorem blamed :
    (run (step job content) (new job) blamingRun).client.result =
      some (.error (.ed2kIntegrity "unrequested data received")) := by
  obtain ⟨hfirst, htodo₀⟩ := serving_begin hlong
  obtain ⟨hsecond, htodo₁⟩ := hfirst.round hlong htotal hcontent (by decide)
  obtain ⟨hthird, htodo₂⟩ := hsecond.round hlong htotal hcontent (by decide)
  obtain ⟨hlast, htodo₃⟩ := hthird.round hlong htotal hcontent (by decide)
  rw [htodo₂, htodo₁, htodo₀] at htodo₃
  have hfull := hsecond.client.inflight
  rw [Nat.zero_add, Nat.one_mul] at hfull
  rw [blamingRun, run_cons, run_append, run_append, run_append]
  exact hlast.blamed hlong htotal hcontent htodo₃ hsecond.client.asked hfull

end Long

/-- For an empty block the client asks for nothing and waits. -/
theorem new_result_of_empty (hempty : job.blockEnd ≤ job.blockStart) :
    (new job).client.result = none := by
  have hnone : refill job maxInflight [] job.blockStart = ([], job.blockStart) :=
    if_neg (by omega)
  have hturn : ((BlockDownload.new job).turn job).1.result = none := by
    have hfirst : refill job maxInflight (BlockDownload.new job).inflight
        (BlockDownload.new job).nextReqStart = ([], job.blockStart) := hnone
    simp only [turn, hfirst, List.isEmpty_nil, Bool.true_and, if_true]
    rfl
  exact hturn

/-- Whether every honest peer of a part, however it cuts its answers and however the frames are
delayed, gets what it may expect: exactly when the part is not empty and its ranges fit into one
request. -/
theorem honestOutcome_iff (index partSize : Nat) (largeFile : Bool)
    (inflate : List UInt8 → Option (List UInt8)) (hashPart : List UInt8 → Md4)
    (content : List UInt8) :
    let job := BlockJob.ofPart index content.length partSize largeFile inflate hashPart
    (∀ ops, HonestOutcome job content (run (step job content) (new job) ops)) ↔
      job.blockStart < job.blockEnd ∧
        job.blockEnd - job.blockStart ≤ maxInflight * blockSize := by
  intro job
  have htotal : job.blockEnd ≤ job.totalBytes := Nat.min_le_right _ _
  have hcontent : job.totalBytes = content.length := rfl
  constructor
  · intro h
    have hblock : job.blockStart < job.blockEnd := by
      by_contra hempty
      have hdone := (h []).2 fun i hstart hend ↦ absurd hend (by omega)
      rw [run_nil, new_result_of_empty (by omega)] at hdone
      cases hdone
    refine ⟨hblock, ?_⟩
    by_contra hlong
    have hblamed := (h blamingRun).1 _ (blamed (by omega) htotal hcontent)
    cases hblamed
  · rintro ⟨hblock, hfits⟩ ops
    exact honestOutcome_of_fits hblock hfits htotal hcontent ops

/-- One part of the usual size, whose peer answers each range with one frame. -/
theorem honest_peer_blamed :
    let content := List.replicate 9728000 0
    let job := BlockJob.ofPart 0 content.length 9728000 false (fun _ ↦ none) fun _ ↦ md4Empty
    ¬HonestOutcome job content (run (step job content) (new job) blamingRun) := by
  intro content job h
  have hlength : content.length = 9728000 := List.length_replicate
  have hspan : partSpan 0 content.length 9728000 = (0, 9728000) := by
    rw [hlength]
    decide
  have hstart : job.blockStart = 0 := congrArg Prod.fst hspan
  have hend : job.blockEnd = 9728000 := congrArg Prod.snd hspan
  have hlong : job.blockStart + maxInflight * blockSize < job.blockEnd := by
    rw [hstart, hend]
    decide
  have htotal : job.blockEnd ≤ job.totalBytes := Nat.min_le_right _ _
  have hblamed := h.1 _ (blamed hlong htotal rfl)
  cases hblamed

end BlockExchange

end Ed2k
