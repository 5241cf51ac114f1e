import FluxDown.Base.Run

/-!
# Retries of one segment

Library `Engine`. The loop around `do_segment`. A request that succeeds covers the segment, or a
window of it where requests are capped; then the loop asks for the next window, up to the end
that the shared table holds. A request that fails is refused at once for errors that a retry
cannot help, else the position is read back from the database and the request repeated. An
`Attempt` is one request with everything the loop reads in that turn.
-/

namespace Engine.SegmentRetry

open Base

/-- `src/native/engine/src/segment_coordinator.rs:906`. -/
def maxRetries : Nat := 5

/-- Bytes that count as progress of a failed request (`segment_coordinator.rs:910`). -/
def retryProgressResetBytes : Int := 256 * 1024

/-- `segment_coordinator.rs:914`. -/
def retryTotalCeilingFactor : Nat := 4

/-- `segment_coordinator.rs:923`. -/
def pinnedNodeMaxRetries : Nat := 2

/-! ## Errors -/

/-- Errors of a request (`src/native/engine/src/downloader.rs:28–119`). Those that no HTTP request
returns are left out; `transport` is what the sources of a `reqwest` error classify as. -/
inductive DownloadError where
  | request (text : String) (status : Option Nat) (transport : Bool)
  | io (storageFull : Bool)
  | db
  | cancelled
  | rangeNotSupported (text : String)
  | versionChanged (text : String)
  | rangeMisaligned (text : String)
  | trueSizeLarger (size : Int)
  | cdnNodeFailed (text : String)
  | pluginAbort (text : String)
  | other (text : String)
deriving DecidableEq

namespace DownloadError

/-- 403 or 429 (`downloader.rs:126–137`). -/
def isServerRejection : DownloadError → Bool
  | request _ (some status) _ => status == 403 || status == 429
  | _ => false

/-- `downloader.rs:140–142`. -/
def isPluginAbort : DownloadError → Bool
  | pluginAbort _ => true
  | _ => false

/-- `downloader.rs:148–157`. -/
def isDiskFull : DownloadError → Bool
  | io storageFull => storageFull
  | _ => false

/-- Status 416 (`downloader.rs:165–172`). -/
def isRangeNotSatisfiable : DownloadError → Bool
  | request _ status _ => status == some 416
  | _ => false

/-- Status 400 (`segment_coordinator.rs:5354–5360`). -/
def isHttp400 : DownloadError → Bool
  | request _ status _ => status == some 400
  | _ => false

/-- What follows the first occurrence of a text. -/
def findAfter (pattern : List Char) : List Char → Option (List Char)
  | [] => if pattern.isEmpty then some [] else none
  | c :: cs => if pattern.isPrefixOf (c :: cs) then some ((c :: cs).drop pattern.length)
      else findAfter pattern cs

/-- Codes of transport failures (`src/native/engine/src/net_failure.rs:73–86`). -/
def netFailureCodes : List String :=
  ["dns", "refused", "connect-timeout", "unreachable", "reset", "tls", "timeout", "interrupted",
    "stalled", "connect"]

/-- The text carries the tag of a transport failure (`net_failure.rs:112–120`). -/
def hasTag (msg : String) : Bool :=
  match findAfter "[net:".toList msg.toList with
  | none => false
  | some rest => rest.contains ']' &&
      netFailureCodes.contains (String.ofList (rest.takeWhile (· != ']')))

/-- `net_failure.rs:182–184`. -/
def isEngineStall (msg : String) : Bool := (findAfter " stalled: ".toList msg.toList).isSome

/-- The failure is one of the transport (`net_failure.rs:169–178`). -/
def isTransport : DownloadError → Bool
  | request _ _ transport => transport
  | other msg | cdnNodeFailed msg => hasTag msg || isEngineStall msg
  | _ => false

end DownloadError

/-- Budget of a failure (`segment_coordinator.rs:956–966`). -/
def segmentRetryBudget (attributableLease fastRelease transportError : Bool) : Nat :=
  if attributableLease || fastRelease && transportError then pinnedNodeMaxRetries else maxRetries

/-- The budget is at most the larger of its two values. -/
theorem segmentRetryBudget_le (attributableLease fastRelease transportError : Bool) :
    segmentRetryBudget attributableLease fastRelease transportError ≤ maxRetries := by
  unfold segmentRetryBudget
  split <;> decide

/-! ## The loop -/

/-- What a call is for. -/
structure RetryCall where
  segIdx : Int
  segStart : Int
  noRange : Bool
  fastRelease : Bool
  sysLease : Bool

/-- The variables of the loop (`segment_coordinator.rs:5401–5405`). -/
structure RetryState where
  attempts : Nat
  totalFailures : Nat
  actualStart : Int
  segEnd : Int
deriving DecidableEq

/-- One request and what is read after it: the cap of a window, the segment's end in the shared
table, what the download has, whether it is cancelled, whether the server refuses ranges, and
the segment's row in the database with its last byte and the bytes downloaded. -/
structure Attempt where
  outcome : Except DownloadError Int
  rangeWindowCap : Option Int := none
  sharedEnd : Option Int := none
  totalDownloaded : Int := 0
  cancelled : Bool := false
  rangeUnsupported : Bool := false
  row : Except DownloadError (Option (Int × Int)) := .ok none
  cancelledInDelay : Bool := false
  receiverClosed : Bool := false

/-- The loop goes on or returns. -/
inductive Turn where
  | again (s : RetryState)
  | done (result : Except DownloadError Int)

namespace RetryCall

variable (call : RetryCall)

/-- A window is complete (`segment_coordinator.rs:5444–5472`). -/
def windowDone (s : RetryState) (a : Attempt) (dl : Int) : Turn :=
  if a.rangeWindowCap.isNone then .done (.ok dl)
  else
    let stop := a.sharedEnd.getD s.segEnd
    let next := call.segStart + dl
    if stop < next then .done (.ok dl)
    else if next ≤ s.actualStart then
      .done (.error (.other s!"segment {call.segIdx} made no progress within a Range window (at {next}, segment end {stop})"))
    else .again { s with actualStart := next, segEnd := stop, attempts := 0 }

/-- Errors that a retry cannot help (`segment_coordinator.rs:5473–5557`). -/
def refused (s : RetryState) (a : Attempt) (e : DownloadError) : Option DownloadError :=
  match e with
  | .cancelled | .versionChanged _ | .rangeMisaligned _ | .trueSizeLarger _ => some e
  | e =>
    if (e matches .rangeNotSupported _) && a.totalDownloaded == 0 then some e
    else if e.isPluginAbort || e.isDiskFull then some e
    else if e.isRangeNotSatisfiable && s.actualStart == call.segStart then
      match e with
      | .request text _ _ => some (.rangeNotSupported s!"416 (request failed: {text})")
      | e => some e
    else if a.cancelled then some e
    else if e.isServerRejection || e.isHttp400 then some e
    else if call.noRange && decide (call.segStart < s.actualStart) && a.rangeUnsupported then some e
    else none

/-- The failures since the last progress, this one included (`segment_coordinator.rs:5578–5581`). -/
def attemptsAfter (s : RetryState) (attemptStart : Int) : Nat :=
  (if retryProgressResetBytes ≤ s.actualStart - attemptStart then 0 else s.attempts) + 1

/-- Count a failure after the position was read back, and wait
(`segment_coordinator.rs:5577–5621`). -/
def countFailure (s : RetryState) (a : Attempt) (e : DownloadError) (attemptStart : Int) : Turn :=
  let totalFailures := s.totalFailures + 1
  let attempts := attemptsAfter s attemptStart
  let budget := segmentRetryBudget (!call.sysLease) call.fastRelease e.isTransport
  if budget ≤ attempts ∨ budget * retryTotalCeilingFactor ≤ totalFailures then .done (.error e)
  else if a.cancelledInDelay ∨ a.receiverClosed then .done (.error .cancelled)
  else .again { s with attempts, totalFailures }

/-- A request fails (`segment_coordinator.rs:5473–5621`). -/
def attemptFailed (s : RetryState) (a : Attempt) (e : DownloadError) : Turn :=
  match call.refused s a e with
  | some e => .done (.error e)
  | none =>
    match a.row with
    | .error e => .done (.error e)
    | .ok none => call.countFailure s a e s.actualStart
    | .ok (some (endByte, downloadedBytes)) =>
      let start := call.segStart + downloadedBytes
      -- The segment was completed by the request that failed.
      if endByte < start then .done (.ok downloadedBytes)
      else call.countFailure { s with segEnd := endByte, actualStart := start } a e s.actualStart

/-- One turn of the loop (`segment_coordinator.rs:5407–5623`). -/
def turn (s : RetryState) (a : Attempt) : Turn :=
  match a.outcome with
  | .ok dl => call.windowDone s a dl
  | .error e => call.attemptFailed s a e

end RetryCall

/-- A call with the requests it has made: how many failed, and the last one. -/
structure RetryLoop where
  state : RetryState
  result : Option (Except DownloadError Int)
  failures : Nat
  last : Option Attempt

namespace RetryLoop

/-- `segment_coordinator.rs:5401–5405`. -/
def new (actualStart segEnd : Int) : RetryLoop :=
  ⟨⟨0, 0, actualStart, segEnd⟩, none, 0, none⟩

/-- The loop makes a request, if it has not returned. -/
def step (call : RetryCall) (loop : RetryLoop) (a : Attempt) : RetryLoop :=
  if loop.result.isSome then loop
  else
    let failures := loop.failures + if a.outcome.isOk then 0 else 1
    match call.turn loop.state a with
    | .again state => { loop with state, failures, last := some a }
    | .done result => { loop with result := some result, failures, last := some a }

end RetryLoop

/-! ## What one turn can do -/

namespace RetryCall

variable {call : RetryCall} {s s' : RetryState} {a : Attempt} {dl : Int} {e : DownloadError}

/-- The end that a window is compared with. -/
def windowEnd (s : RetryState) (a : Attempt) : Int := a.sharedEnd.getD s.segEnd

private theorem windowDone_again (h : call.windowDone s a dl = .again s') :
    s' = { s with actualStart := call.segStart + dl, segEnd := windowEnd s a, attempts := 0 } ∧
      s.actualStart < s'.actualStart ∧ s'.actualStart ≤ s'.segEnd := by
  unfold windowDone at h
  split at h
  · cases h
  · dsimp only at h
    split at h
    · cases h
    · next hend =>
      split at h
      · cases h
      · next hnext =>
        cases h
        exact ⟨rfl, Int.not_le.mp hnext, Int.not_lt.mp hend⟩

private theorem windowDone_ok {dl' : Int} (h : call.windowDone s a dl = .done (.ok dl'))
    (hcap : a.rangeWindowCap.isSome) : dl' = dl ∧ windowEnd s a < call.segStart + dl := by
  unfold windowDone at h
  rw [if_neg (by simpa using Option.isSome_iff_ne_none.mp hcap)] at h
  dsimp only at h
  split at h
  · next hend =>
    cases h
    exact ⟨rfl, hend⟩
  · split at h
    · cases h
    · cases h

/-- A failure that is counted and does not end the loop stays under the ceiling. -/
theorem countFailure_again {start : Int} (h : call.countFailure s a e start = .again s') :
    s'.actualStart = s.actualStart ∧ s'.segEnd = s.segEnd ∧
      s'.totalFailures = s.totalFailures + 1 ∧
      s'.totalFailures < maxRetries * retryTotalCeilingFactor := by
  unfold countFailure at h
  dsimp only at h
  split at h
  · cases h
  · next hbudget =>
    split at h
    · cases h
    · cases h
      refine ⟨rfl, rfl, rfl, ?_⟩
      rw [not_or, Nat.not_le, Nat.not_le] at hbudget
      exact Nat.lt_of_lt_of_le hbudget.2
        (Nat.mul_le_mul_right _ (segmentRetryBudget_le _ _ _))

private theorem countFailure_ok {start : Int} {result : Int} :
    call.countFailure s a e start ≠ .done (.ok result) := by
  intro h
  unfold countFailure at h
  dsimp only at h
  split at h
  · cases h
  · split at h
    · cases h
    · cases h

/-- After a failure the loop goes on where it stood or where the row says. -/
theorem attemptFailed_again (h : call.attemptFailed s a e = .again s') :
    s'.totalFailures = s.totalFailures + 1 ∧
      s'.totalFailures < maxRetries * retryTotalCeilingFactor ∧
      (s'.actualStart = s.actualStart ∧ s'.segEnd = s.segEnd ∨
        ∃ downloadedBytes, a.row = .ok (some (s'.segEnd, downloadedBytes)) ∧
          s'.actualStart = call.segStart + downloadedBytes ∧ s'.actualStart ≤ s'.segEnd) := by
  unfold attemptFailed at h
  split at h
  · cases h
  · split at h
    · cases h
    · have hagain := countFailure_again h
      exact ⟨hagain.2.2.1, hagain.2.2.2, Or.inl ⟨hagain.1, hagain.2.1⟩⟩
    · next endByte downloadedBytes hrow =>
      dsimp only at h
      split at h
      · cases h
      · next hend =>
        have hagain := countFailure_again h
        refine ⟨hagain.2.2.1, hagain.2.2.2, Or.inr ⟨downloadedBytes, ?_, hagain.1, ?_⟩⟩
        · rw [hagain.2.1]
          exact hrow
        · rw [hagain.1, hagain.2.1]
          exact Int.not_lt.mp hend

/-- A failed request ends well only where the row is complete. -/
theorem attemptFailed_ok (h : call.attemptFailed s a e = .done (.ok dl)) :
    ∃ endByte, a.row = .ok (some (endByte, dl)) ∧ endByte < call.segStart + dl := by
  unfold attemptFailed at h
  split at h
  · cases h
  · split at h
    · cases h
    · exact absurd h countFailure_ok
    · next endByte downloadedBytes hrow =>
      dsimp only at h
      split at h
      · next hend =>
        cases h
        exact ⟨endByte, hrow, hend⟩
      · exact absurd h countFailure_ok

end RetryCall

namespace RetryLoop

variable {call : RetryCall}

/-- Failures that returned nothing are counted in the loop, and are below the ceiling. -/
private structure Counted (loop : RetryLoop) : Prop where
  running : loop.result = none →
    loop.failures = loop.state.totalFailures ∧
      loop.state.totalFailures < maxRetries * retryTotalCeilingFactor
  ended : loop.failures ≤ maxRetries * retryTotalCeilingFactor

private theorem step_of_isSome {loop : RetryLoop} (h : loop.result.isSome) (a : Attempt) :
    loop.step call a = loop := by
  unfold step
  rw [if_pos h]

private theorem counted_step (loop : RetryLoop) (a : Attempt) (h : loop.Counted) :
    (loop.step call a).Counted := by
  by_cases hresult : loop.result.isSome
  · rw [step_of_isSome hresult]
    exact h
  · have hnone : loop.result = none := by simpa using hresult
    obtain ⟨hcount, hlt⟩ := h.running hnone
    unfold step
    rw [if_neg hresult]
    cases houtcome : a.outcome with
    | ok dl =>
      simp only [Except.isOk, Except.toBool, if_true, Nat.add_zero]
      split
      · next state hturn =>
        rw [RetryCall.turn, houtcome] at hturn
        have hagain := (RetryCall.windowDone_again hturn).1
        refine ⟨fun _ ↦ ?_, h.ended⟩
        rw [hagain]
        exact ⟨hcount, hlt⟩
      · exact ⟨fun hresult ↦ (by cases hresult), h.ended⟩
    | error e =>
      simp only [Except.isOk, Except.toBool, Bool.false_eq_true, if_false]
      split
      · next state hturn =>
        rw [RetryCall.turn, houtcome] at hturn
        obtain ⟨htotal, hceiling, -⟩ := RetryCall.attemptFailed_again hturn
        have hnext : loop.failures + 1 = state.totalFailures := by omega
        exact ⟨fun _ ↦ ⟨hnext, hceiling⟩, by change loop.failures + 1 ≤ _; omega⟩
      · exact ⟨fun hresult ↦ (by cases hresult), by change loop.failures + 1 ≤ _; omega⟩

private theorem counted_new (actualStart segEnd : Int) : (new actualStart segEnd).Counted :=
  ⟨fun _ ↦ ⟨rfl, (by decide : 0 < maxRetries * retryTotalCeilingFactor)⟩, Nat.zero_le _⟩

private theorem step_of_again {loop : RetryLoop} {a : Attempt} (hresult : loop.result = none)
    (hrunning : (loop.step call a).result = none) :
    call.turn loop.state a = .again (loop.step call a).state := by
  unfold step at hrunning ⊢
  simp only [hresult, Option.isSome_none, Bool.false_eq_true, if_false] at hrunning ⊢
  cases hturn : call.turn loop.state a with
  | again state => rfl
  | done result =>
    rw [hturn] at hrunning
    cases hrunning

private theorem result_of_step {loop : RetryLoop} {a : Attempt}
    (hrunning : (loop.step call a).result = none) : loop.result = none := by
  by_cases hresult : loop.result.isSome
  · rw [step_of_isSome hresult] at hrunning
    exact hrunning
  · simpa using hresult

/-- A window that does not end the loop moves its position forward. -/
theorem step_advances {loop : RetryLoop} {a : Attempt} (hok : a.outcome.isOk)
    (hrunning : (loop.step call a).result = none) :
    loop.state.actualStart < (loop.step call a).state.actualStart := by
  have hturn := step_of_again (result_of_step hrunning) hrunning
  cases houtcome : a.outcome with
  | error e =>
    rw [houtcome] at hok
    cases hok
  | ok dl =>
    rw [RetryCall.turn, houtcome] at hturn
    exact (RetryCall.windowDone_again hturn).2.1

/-! ## Requests until the loop returns -/

/-- The ends that a turn reads are at most `bound`, and no row counts less than nothing. -/
structure Within (bound : Int) (a : Attempt) : Prop where
  shared : ∀ stop ∈ a.sharedEnd, stop ≤ bound
  row : ∀ endByte downloadedBytes, a.row = .ok (some (endByte, downloadedBytes)) →
    endByte ≤ bound ∧ 0 ≤ downloadedBytes

/-- Positions that a window can start from. -/
def positions (call : RetryCall) (actualStart bound : Int) : Nat :=
  (bound - min call.segStart actualStart).toNat

/-- Requests after which a call has returned. -/
def requestLimit (call : RetryCall) (actualStart bound : Int) : Nat :=
  (maxRetries * retryTotalCeilingFactor + 1) * (positions call actualStart bound + 1)

/-- What is left of the failures, each with every position, and of the positions. -/
private def remaining (width : Nat) (bound : Int) (loop : RetryLoop) : Nat :=
  (maxRetries * retryTotalCeilingFactor - loop.state.totalFailures) * (width + 1) +
    (bound - loop.state.actualStart).toNat

/-- While the loop runs, its position and its end stay between the two limits. -/
private structure Confined (lo bound : Int) (loop : RetryLoop) : Prop where
  counted : loop.Counted
  low : lo ≤ loop.state.actualStart
  high : loop.state.segEnd ≤ bound

private theorem state_of_ended {loop : RetryLoop} {a : Attempt}
    (hended : (loop.step call a).result.isSome) : (loop.step call a).state = loop.state := by
  unfold step at hended ⊢
  split
  · rfl
  · next hresult =>
    rw [if_neg hresult] at hended
    cases hturn : call.turn loop.state a with
    | again state =>
      rw [hturn] at hended
      exact absurd hended hresult
    | done result => rfl

private theorem windowEnd_le {bound : Int} {s : RetryState} {a : Attempt} (hwithin : Within bound a)
    (hend : s.segEnd ≤ bound) : RetryCall.windowEnd s a ≤ bound := by
  unfold RetryCall.windowEnd
  cases hshared : a.sharedEnd with
  | none => exact hend
  | some stop => exact hwithin.shared stop hshared

/-- A turn that does not end the loop leaves the position and the end between the limits, and
spends a failure or goes forward. -/
theorem turn_confined {lo bound : Int} (hlo : lo ≤ call.segStart) {s s' : RetryState}
    {a : Attempt} (hlow : lo ≤ s.actualStart) (hhigh : s.segEnd ≤ bound) (hwithin : Within bound a)
    (hturn : call.turn s a = .again s') :
    (lo ≤ s'.actualStart ∧ s'.segEnd ≤ bound) ∧
      (s'.totalFailures = s.totalFailures ∧ s.actualStart < s'.actualStart ∧
          s'.actualStart ≤ bound ∨
        s'.totalFailures = s.totalFailures + 1 ∧
          s'.totalFailures < maxRetries * retryTotalCeilingFactor) := by
  rw [RetryCall.turn] at hturn
  cases houtcome : a.outcome with
  | ok dl =>
    rw [houtcome] at hturn
    obtain ⟨hagain, hforward, hinside⟩ := RetryCall.windowDone_again hturn
    have hend := windowEnd_le hwithin hhigh
    have hsegEnd : s'.segEnd = RetryCall.windowEnd s a := by rw [hagain]
    have htotal : s'.totalFailures = s.totalFailures := by rw [hagain]
    exact ⟨by omega, Or.inl (by omega)⟩
  | error e =>
    rw [houtcome] at hturn
    obtain ⟨htotal, hceiling, hwhere⟩ := RetryCall.attemptFailed_again hturn
    refine ⟨?_, Or.inr ⟨htotal, hceiling⟩⟩
    rcases hwhere with ⟨hstart, hend⟩ | ⟨downloadedBytes, hrow, hstart, -⟩
    · omega
    · have hsound := hwithin.row _ _ hrow
      omega

private theorem confined_step {lo bound : Int} (hlo : lo ≤ call.segStart) (loop : RetryLoop)
    (a : Attempt) (h : Confined lo bound loop) (hwithin : Within bound a) :
    Confined lo bound (loop.step call a) := by
  cases hrunning : (loop.step call a).result with
  | some result =>
    have hstate : (loop.step call a).state = loop.state :=
      state_of_ended (by rw [hrunning]; rfl)
    exact ⟨counted_step loop a h.counted, by rw [hstate]; exact h.low, by rw [hstate]; exact h.high⟩
  | none =>
    have hturn := step_of_again (result_of_step hrunning) hrunning
    have hconfined := (turn_confined hlo h.low h.high hwithin hturn).1
    exact ⟨counted_step loop a h.counted, hconfined.1, hconfined.2⟩

/-- Each turn that does not end the loop leaves less to do. -/
theorem remaining_step {lo bound : Int} (hlo : lo ≤ call.segStart) (loop : RetryLoop)
    (a : Attempt) (h : Confined lo bound loop) (hwithin : Within bound a) :
    (loop.step call a).result.isSome ∨
      remaining (bound - lo).toNat bound (loop.step call a) <
        remaining (bound - lo).toNat bound loop := by
  cases hrunning : (loop.step call a).result with
  | some result => exact Or.inl rfl
  | none =>
    right
    have hresult := result_of_step hrunning
    have hturn := step_of_again hresult hrunning
    obtain ⟨⟨hlow, -⟩, hspent⟩ := turn_confined hlo h.low h.high hwithin hturn
    unfold remaining
    rcases hspent with ⟨htotal, hforward, hinside⟩ | ⟨htotal, hceiling⟩
    · rw [htotal]
      omega
    · -- One failure less pays for going back to the first position.
      have hleft : maxRetries * retryTotalCeilingFactor - loop.state.totalFailures =
          maxRetries * retryTotalCeilingFactor - (loop.step call a).state.totalFailures + 1 := by
        omega
      rw [hleft, Nat.add_mul, Nat.one_mul]
      omega

private theorem isSome_of_requestLimit {actualStart segEnd bound : Int} {attempts : List Attempt}
    (hend : segEnd ≤ bound) (hwithin : ∀ a ∈ attempts, Within bound a)
    (hlong : requestLimit call actualStart bound < attempts.length) :
    (run (step call) (new actualStart segEnd) attempts).result.isSome := by
  have hlo : min call.segStart actualStart ≤ call.segStart := Int.min_le_left _ _
  have hdone : ∀ (loop : RetryLoop) (a : Attempt),
      loop.result.isSome → (loop.step call a).result.isSome := by
    intro loop a hdone
    rw [step_of_isSome hdone]
    exact hdone
  have hshort : remaining (positions call actualStart bound) bound (new actualStart segEnd) <
      attempts.length := by
    refine Nat.lt_of_le_of_lt ?_ hlong
    unfold remaining requestLimit positions
    simp only [new, Nat.sub_zero]
    rw [Nat.add_mul, Nat.one_mul]
    omega
  exact run_stops (confined_step hlo) hdone (remaining_step hlo)
    ⟨counted_new actualStart segEnd, Int.min_le_right _ _, hend⟩
    (EveryStep.of_forall_mem (fun a ha _ ↦ hwithin a ha) _) hshort

/-! ## Where a call stops -/

/-- A capped call returns bytes past the end that the shared table holds. -/
def PastSharedEnd (call : RetryCall) (loop : RetryLoop) : Prop :=
  ∀ dl, loop.result = some (.ok dl) → ∀ a, loop.last = some a → a.rangeWindowCap.isSome →
    ∀ stop ∈ a.sharedEnd, stop < call.segStart + dl

/-- A capped call returns bytes past the end that the shared table holds, after a window, and
past the end of its row, after a failure. -/
def ReturnedPast (call : RetryCall) (loop : RetryLoop) : Prop :=
  ∀ dl, loop.result = some (.ok dl) → ∀ a, loop.last = some a → a.rangeWindowCap.isSome →
    (a.outcome.isOk → ∀ stop ∈ a.sharedEnd, stop < call.segStart + dl) ∧
      (a.outcome.isOk = false →
        ∃ endByte, a.row = .ok (some (endByte, dl)) ∧ endByte < call.segStart + dl)

private theorem returnedPast_step (loop : RetryLoop) (a : Attempt) (h : ReturnedPast call loop) :
    ReturnedPast call (loop.step call a) := by
  by_cases hended : loop.result.isSome
  · rw [step_of_isSome hended]
    exact h
  · intro dl hresult last hlast hcap
    unfold step at hresult hlast
    rw [if_neg hended] at hresult hlast
    cases hturn : call.turn loop.state a with
    | again state =>
      rw [hturn] at hresult
      exact absurd (by rw [hresult]; rfl) hended
    | done result =>
      rw [hturn] at hresult hlast
      cases hresult
      cases hlast
      unfold RetryCall.turn at hturn
      cases houtcome : a.outcome with
      | ok dl' =>
        rw [houtcome] at hturn
        obtain ⟨rfl, hpast⟩ := RetryCall.windowDone_ok hturn hcap
        refine ⟨fun _ stop hstop ↦ ?_, fun hfailed ↦ (by cases hfailed)⟩
        have hstop : a.sharedEnd = some stop := hstop
        rw [RetryCall.windowEnd, hstop] at hpast
        exact hpast
      | error e =>
        rw [houtcome] at hturn
        exact ⟨fun hok ↦ (by cases hok), fun _ ↦ RetryCall.attemptFailed_ok hturn⟩

/-- A call makes at most twenty requests that fail, goes forward with each window, has returned
after a number of requests that the bound of its end fixes, and stops past its end. -/
theorem retry_bounded (call : RetryCall) (actualStart segEnd : Int) (attempts : List Attempt) :
    let loop := run (step call) (new actualStart segEnd)
    (loop attempts).failures ≤ maxRetries * retryTotalCeilingFactor ∧
      (∀ (n : Nat) (a : Attempt), attempts[n]? = some a → a.outcome.isOk →
        (loop (attempts.take (n + 1))).result = none →
          (loop (attempts.take n)).state.actualStart <
            (loop (attempts.take (n + 1))).state.actualStart) ∧
      (∀ bound, segEnd ≤ bound → (∀ a ∈ attempts, Within bound a) →
        requestLimit call actualStart bound < attempts.length → (loop attempts).result.isSome) ∧
      ReturnedPast call (loop attempts) := by
  intro loop
  refine ⟨?_, fun n a hat hok hrunning ↦ ?_, fun bound ↦ isSome_of_requestLimit, ?_⟩
  · exact (run_preserves counted_step (counted_new actualStart segEnd) attempts).ended
  · have hnext : loop (attempts.take (n + 1)) = (loop (attempts.take n)).step call a := by
      rw [List.take_add_one, hat]
      exact run_concat _ _ _ _
    rw [hnext] at hrunning ⊢
    exact step_advances hok hrunning
  · exact run_preserves returnedPast_step (fun _ hresult ↦ by cases hresult) attempts

/-- A segment of 200 bytes in windows of 100. After the first window a request fails while a
split, already in the database, has not reached the shared table. -/
def splitWhileFailing : List Attempt :=
  [{ outcome := .ok 100, rangeWindowCap := some 100, sharedEnd := some 199 },
    { outcome := .error (.other "segment 0 stalled: no data"), rangeWindowCap := some 100,
      sharedEnd := some 199, row := .ok (some (99, 100)) }]

/-- The call returns the row's bytes, not past the end that the shared table still holds. -/
theorem returned_before_shared_end :
    ¬ PastSharedEnd ⟨0, 0, false, false, true⟩
      (run (step ⟨0, 0, false, false, true⟩) (new 0 199) splitWhileFailing) := by
  intro h
  have hpast := h 100 (by decide) _ rfl rfl 199 rfl
  revert hpast
  decide

end RetryLoop

end Engine.SegmentRetry
