import FluxDown.Link.Authorize
import FluxDown.Link.Responder

/-!
# A bound on guesses of the pairing code

Library `Link`. A hello is throttled by the failures on record, and its own failure is put on
record under a later lock. As long as each hello that is let through finds room for itself and
for the hellos in between, the failures on record and the hellos in between stay below the
limits, and with them the wrong guesses of any window.
-/

namespace Link

open Base

/-- The bucket and the time of a wrong code. -/
def PairingEvent.wrong : PairingEvent → Option (String × Nat)
  | .compared _ bucket false time => some (bucket, time)
  | _ => none

/-- Hellos with a wrong code in the window from `start`, of buckets that `p` admits. -/
def wrongIn (p : String → Bool) (start : Nat) (history : List PairingEvent) : Nat :=
  history.countP fun event ↦ event.wrong.any fun wrong ↦
    p wrong.1 && decide (start ≤ wrong.2) && decide (wrong.2 < start + failedHelloWindow)

/-- Times on record that `f` admits, of buckets that `p` admits. -/
def timesOn (p : String → Bool) (f : Nat → Bool) (failures : List FailureBucket) : Nat :=
  (failures.map fun bucket ↦ if p bucket.key then bucket.times.countP f else 0).sum

namespace Call

/-- The bucket of a hello that was not throttled and may still be put on record. -/
def bucket : Call → Option String
  | .helloAllowed _ _ source | .helloFailed source _ => some (failureBucketKey source)
  | _ => none

/-- The hello failed and is not on record yet. -/
def hasFailed : Call → Bool
  | .helloFailed _ _ => true
  | _ => false

/-- The hello may still be put on record, in a bucket that `p` admits. -/
def inBetween (p : String → Bool) (call : Call) : Bool := call.bucket.any p

/-- The hello failed and will be put on record, in a bucket that `p` admits. -/
def failedIn (p : String → Bool) (call : Call) : Bool := call.hasFailed && call.inBetween p

end Call

/-- Live failures on record and hellos in between, of buckets that `p` admits. -/
def occupied (p : String → Bool) (r : PairingResponder) : Nat :=
  timesOn p (fun _ ↦ true) (pruneFailures r.clock r.failures) + r.calls.countP (Call.inBetween p)

/-- A hello that is let through finds room: the failures on record and the hellos in between
are below both limits. -/
def HeadRoom (r : PairingResponder) : PairingOp → Prop
  | .hello req source => req.protocolVersion = pairingProtocolVersion →
    (validateInitiatorAddrs req.initiatorAddrs).isOk →
    isThrottled source (pruneFailures r.clock r.failures) = false →
      occupied (· == failureBucketKey source) r < maxFailedHellos ∧
        occupied (fun _ ↦ true) r < maxFailedHellosGlobal
  | _ => True

instance (r : PairingResponder) : ∀ op, Decidable (HeadRoom r op)
  | .hello req source => inferInstanceAs (Decidable (req.protocolVersion = pairingProtocolVersion →
    (validateInitiatorAddrs req.initiatorAddrs).isOk →
    isThrottled source (pruneFailures r.clock r.failures) = false →
      occupied (· == failureBucketKey source) r < maxFailedHellos ∧
        occupied (fun _ ↦ true) r < maxFailedHellosGlobal))
  | .tick _ | .generateCode _ | .revokeCodes | .setSelfInfo _ | .reveal _
  | .setLocalDecision _ _ | .confirm _ _ | .advance _ _ | .timeOut _ | .pruneCodes | .pruneSessions
  | .pruneFailures => inferInstanceAs (Decidable True)

/-! ## The table of failures -/

section Failures

variable {p : String → Bool} {f : Nat → Bool} {now : Nat}

private theorem timesOn_nonempty (failures : List FailureBucket) :
    timesOn p f (failures.filter fun bucket ↦ !bucket.times.isEmpty) = timesOn p f failures := by
  unfold timesOn
  induction failures with
  | nil => rfl
  | cons bucket failures ih =>
    rw [List.filter_cons]
    split
    · rw [List.map_cons, List.sum_cons, ih, List.map_cons, List.sum_cons]
    · next hempty =>
      have hnil : bucket.times = [] := by simpa using hempty
      rw [ih, List.map_cons, List.sum_cons, hnil]
      simp

private theorem timesOn_pruneFailures (failures : List FailureBucket) :
    timesOn p f (pruneFailures now failures) =
      timesOn p (fun time ↦ f time && decide (now - time < failedHelloWindow)) failures := by
  rw [pruneFailures, timesOn_nonempty, timesOn, List.map_map]
  simp only [timesOn, Function.comp_def, List.countP_filter]

/-- Pruning only drops times. -/
theorem timesOn_pruneFailures_le (failures : List FailureBucket) :
    timesOn p f (pruneFailures now failures) ≤ timesOn p f failures := by
  rw [timesOn_pruneFailures]
  unfold timesOn
  induction failures with
  | nil => exact Nat.le_refl _
  | cons bucket failures ih =>
    rw [List.map_cons, List.map_cons, List.sum_cons, List.sum_cons]
    apply Nat.add_le_add _ ih
    split
    · apply List.countP_mono_left
      intro time _ htime
      exact (Bool.and_eq_true _ _ ▸ htime).1
    · exact Nat.le_refl _

/-- Pruning keeps the times of the window. -/
theorem timesOn_pruneFailures_eq (failures : List FailureBucket)
    (hlive : ∀ time, f time = true → now - time < failedHelloWindow) :
    timesOn p f (pruneFailures now failures) = timesOn p f failures := by
  rw [timesOn_pruneFailures]
  congr 1
  funext time
  cases htime : f time with
  | false => rfl
  | true => simp [hlive time htime]

/-- Each bucket that pruning leaves holds a time. -/
theorem length_pruneFailures_le (now : Nat) (failures : List FailureBucket) :
    (pruneFailures now failures).length ≤
      timesOn (fun _ ↦ true) (fun _ ↦ true) (pruneFailures now failures) := by
  have hbuckets : ∀ rows : List FailureBucket, (∀ bucket ∈ rows, bucket.times ≠ []) →
      rows.length ≤ timesOn (fun _ ↦ true) (fun _ ↦ true) rows := by
    intro rows hrows
    unfold timesOn
    induction rows with
    | nil => exact Nat.le_refl _
    | cons bucket rows ih =>
      have hrest := ih fun row hrow ↦ hrows row (List.mem_cons_of_mem _ hrow)
      have hbucket : 0 < bucket.times.length :=
        List.length_pos_of_ne_nil (hrows bucket List.mem_cons_self)
      rw [List.map_cons, List.sum_cons, List.length_cons]
      simp only [if_true, List.countP_true] at hrest ⊢
      omega
  apply hbuckets
  intro bucket hbucket
  rw [pruneFailures, List.mem_filter] at hbucket
  simpa using hbucket.2

private theorem lastRow_le_timesOn {failures : List FailureBucket} {key : String}
    {bucket : FailureBucket} (h : lastRow? FailureBucket.key key failures = some bucket) :
    bucket.times.length ≤ timesOn (· == key) (fun _ ↦ true) failures := by
  obtain ⟨hmem, hkey⟩ := lastRow?_eq_some h
  have hle := List.le_sum_of_mem (List.mem_map_of_mem
    (f := fun bucket : FailureBucket ↦ if bucket.key == key then bucket.times.countP fun _ ↦ true
      else 0) hmem)
  rw [timesOn, List.countP_true]
  rwa [hkey, beq_self_eq_true, if_pos rfl, List.countP_true] at hle

/-- Where there is room, a failed hello adds its time to the table. -/
theorem timesOn_recordFailedHello {source : Option IpAddr} {failures : List FailureBucket}
    (hbuckets : (pruneFailures now failures).length < maxFailureBuckets)
    (htimes : timesOn (· == failureBucketKey source) (fun _ ↦ true) (pruneFailures now failures) <
      maxFailedHelloRecords) :
    timesOn p f (recordFailedHello now source failures) =
      timesOn p f (pruneFailures now failures) +
        if p (failureBucketKey source) && f now then 1 else 0 := by
  unfold recordFailedHello
  simp only [hbuckets, decide_true, Bool.or_true, if_true]
  generalize pruneFailures now failures = rows at htimes ⊢
  generalize failureBucketKey source = key at htimes ⊢
  -- The bucket is far from full, so that no time makes room for the new one.
  have hkeep : ((lastRow? FailureBucket.key key rows).map FailureBucket.times).getD [] =
      if maxFailedHelloRecords ≤
          (((lastRow? FailureBucket.key key rows).map FailureBucket.times).getD []).length then
        (((lastRow? FailureBucket.key key rows).map FailureBucket.times).getD []).drop 1
      else ((lastRow? FailureBucket.key key rows).map FailureBucket.times).getD [] := by
    rw [if_neg]
    cases hfound : lastRow? FailureBucket.key key rows with
    | none => decide
    | some bucket =>
      have hle := lastRow_le_timesOn hfound
      simp only [Option.map_some, Option.getD_some]
      omega
  rw [← hkeep]
  have hsum := sum_map_upsertRow FailureBucket.key
    (fun bucket ↦ if p bucket.key then bucket.times.countP f else 0)
    ⟨key, ((lastRow? FailureBucket.key key rows).map FailureBucket.times).getD [] ++ [now]⟩ rows
  unfold timesOn
  cases hfound : lastRow? FailureBucket.key key rows with
  | none =>
    rw [hfound] at hsum
    simpa [hfound, Bool.and_eq_true, ← ite_and] using hsum
  | some bucket =>
    have hkey := (lastRow?_eq_some hfound).2
    rw [hfound] at hsum
    simp only [Option.map_some, Option.getD_some, List.countP_append, List.countP_singleton,
      hkey] at hsum ⊢
    cases hp : p key with
    | false => simpa [hp] using hsum
    | true =>
      simp only [hp, if_true, Bool.true_and] at hsum ⊢
      omega

end Failures

/-! ## Sections that concern no failure -/

/-- The section leaves the failures, the clock, the hellos in between and the wrong codes alone. -/
private structure Quiet (r r' : PairingResponder) : Prop where
  failures : r'.failures = r.failures
  clock : r'.clock = r.clock
  calls : ∀ q : Call → Bool, (∀ call, call.bucket = none → q call = false) →
    r'.calls.countP q = r.calls.countP q
  history : ∀ q : PairingEvent → Bool, (∀ event, event.wrong = none → q event = false) →
    r'.history.countP q = r.history.countP q

section Quiet

variable {c : Primitives} {r r' r'' : PairingResponder}

private theorem Quiet.refl (r : PairingResponder) : Quiet r r :=
  ⟨rfl, rfl, fun _ _ ↦ rfl, fun _ _ ↦ rfl⟩

private theorem Quiet.trans (h : Quiet r r') (h' : Quiet r' r'') : Quiet r r'' :=
  ⟨h'.failures.trans h.failures, h'.clock.trans h.clock,
    fun q hq ↦ (h'.calls q hq).trans (h.calls q hq),
    fun q hq ↦ (h'.history q hq).trans (h.history q hq)⟩

/-- Other tables do not matter. -/
theorem Quiet.tables (hfailures : r'.failures = r.failures) (hclock : r'.clock = r.clock)
    (hcalls : r'.calls = r.calls) (hhistory : r'.history = r.history) : Quiet r r' :=
  ⟨hfailures, hclock, fun _ _ ↦ by rw [hcalls], fun _ _ ↦ by rw [hhistory]⟩

private theorem Quiet.note (h : Quiet r r') {event : PairingEvent} (hevent : event.wrong = none) :
    Quiet r (r'.note event) := by
  refine ⟨h.failures, h.clock, h.calls, ?_⟩
  intro q hq
  change (r'.history ++ [event]).countP q = _
  rw [List.countP_append, h.history q hq, List.countP_singleton, hq event hevent]
  simp

private theorem Quiet.begin (h : Quiet r r') {new : Call} (hnew : new.bucket = none) :
    Quiet r (r'.begin new) := by
  refine ⟨h.failures, h.clock, ?_, h.history⟩
  intro q hq
  change (r'.calls ++ [new]).countP q = _
  rw [List.countP_append, h.calls q hq, List.countP_singleton, hq new hnew]
  simp

/-- Another call at the same place. -/
theorem countP_goOn (q : Call → Bool) (new : Call) {n : Nat} {old : Call}
    (hcall : r.calls[n]? = some old) :
    (r.goOn n new).calls.countP q + (if q old then 1 else 0) =
      r.calls.countP q + if q new then 1 else 0 := by
  obtain ⟨hlt, hold⟩ := List.getElem?_eq_some_iff.mp hcall
  change (r.calls.set n new).countP q + _ = _
  rw [List.countP_set hlt, hold]
  have hone : (if q old then 1 else 0) ≤ r.calls.countP q := by
    split
    · next hq => exact List.countP_pos_iff.mpr ⟨old, hold ▸ List.getElem_mem hlt, hq⟩
    · exact Nat.zero_le _
  omega

private theorem Quiet.goOn (h : Quiet r r') {n : Nat} {old new : Call}
    (hcall : r'.calls[n]? = some old) (hold : old.bucket = none) (hnew : new.bucket = none) :
    Quiet r (r'.goOn n new) := by
  refine ⟨h.failures, h.clock, ?_, h.history⟩
  intro q hq
  have hcount := countP_goOn q new hcall
  rw [hq old hold, hq new hnew] at hcount
  rw [← h.calls q hq]
  simpa using hcount

private theorem quiet_helloConsume {n : Nat} {req : HelloRequest} {addrs : List String}
    (hcall : r.calls[n]? = some (.helloVerified req addrs)) :
    Quiet r (r.helloConsume n req addrs) := by
  have hcodes : ∀ codes, Quiet r { r with codes := codes } := fun _ ↦ .tables rfl rfl rfl rfl
  unfold PairingResponder.helloConsume
  simp only
  split
  · exact (hcodes _).goOn hcall rfl rfl
  · exact ((hcodes _).note rfl).goOn hcall rfl rfl

private theorem quiet_helloCreate {n : Nat} {req : HelloRequest} {addrs : List String}
    {me : SelfInfo} (draw : Draw) (hcall : r.calls[n]? = some (.helloNamed req addrs me)) :
    Quiet r (r.helloCreate c n req addrs me draw) := by
  have hsessions : ∀ sessions, Quiet r { r with sessions := sessions } := fun _ ↦
    .tables rfl rfl rfl rfl
  exact ((hsessions _).note rfl).goOn hcall rfl rfl

private theorem quiet_handleReveal (req : RevealRequest) : Quiet r (r.handleReveal req) := by
  have hsessions : ∀ sessions, Quiet r { r with sessions := sessions } := fun _ ↦
    .tables rfl rfl rfl rfl
  unfold PairingResponder.handleReveal
  simp only
  split
  · exact (hsessions _).begin rfl
  · split
    · exact (hsessions _).begin rfl
    · exact (hsessions _).begin rfl

private theorem quiet_revealCheck {n : Nat} {req : RevealRequest} {entry : ConfirmEntry}
    (hcall : r.calls[n]? = some (.revealTaken req entry)) :
    Quiet r (r.revealCheck c n req entry) := by
  have hfail : ∀ error, Quiet r (r.fail n error) := fun _ ↦ (Quiet.refl r).goOn hcall rfl rfl
  unfold PairingResponder.revealCheck
  split
  · exact hfail _
  · split
    · exact hfail _
    · split
      · exact hfail _
      · simp only
        split
        · exact hfail _
        · exact ((Quiet.refl r).note rfl).goOn hcall rfl rfl

private theorem quiet_setLocalDecision (session : String) (accept : Bool) :
    Quiet r (r.setLocalDecision session accept) := by
  have hsessions : ∀ sessions, Quiet r { r with sessions := sessions } := fun _ ↦
    .tables rfl rfl rfl rfl
  unfold PairingResponder.setLocalDecision
  simp only
  split
  · exact hsessions _
  · split
    · exact hsessions _
    · exact ((hsessions _).note rfl).trans (.tables rfl rfl rfl rfl)

private theorem quiet_removeSession (h : Quiet r r') (session : String) :
    Quiet r (r'.removeSession session) :=
  h.trans (.tables rfl rfl rfl rfl)

private theorem quiet_handleConfirm (session : String) (confirm : Bool) :
    Quiet r (r.handleConfirm session confirm) := by
  have hsessions : ∀ sessions, Quiet r { r with sessions := sessions } := fun _ ↦
    .tables rfl rfl rfl rfl
  unfold PairingResponder.handleConfirm
  simp only
  split
  · split
    · refine Quiet.begin (Quiet.note ?_ rfl) rfl
      exact quiet_removeSession (hsessions _) session
    · refine Quiet.begin ?_ rfl
      exact .tables rfl rfl rfl rfl
  · split
    · exact (hsessions _).begin rfl
    · split
      · exact (hsessions _).begin rfl
      · split
        · exact (hsessions _).begin rfl
        · split
          · exact (hsessions _).begin rfl
          · exact (hsessions _).begin rfl

private theorem quiet_awaitDecision {n : Nat} {session : String} {deadline : Nat}
    (hcall : r.calls[n]? = some (.confirmLooking session deadline)) :
    Quiet r (r.awaitDecision n session deadline) := by
  have hsessions : ∀ sessions, Quiet r { r with sessions := sessions } := fun _ ↦
    .tables rfl rfl rfl rfl
  unfold PairingResponder.awaitDecision
  simp only
  split
  · exact (hsessions _).goOn hcall rfl rfl
  · split
    · exact (hsessions _).goOn hcall rfl rfl
    · exact (hsessions _).goOn hcall rfl rfl
    · exact (hsessions _).goOn hcall rfl rfl

private theorem quiet_confirmTake {n : Nat} {session : String} {decision : Bool}
    (hcall : r.calls[n]? = some (.confirmRead session decision)) (now : Int) :
    Quiet r (r.confirmTake c n session decision now) := by
  have hsessions : ∀ sessions, Quiet r { r with sessions := sessions } := fun _ ↦
    .tables rfl rfl rfl rfl
  unfold PairingResponder.confirmTake
  simp only
  split
  · exact (hsessions _).goOn hcall rfl rfl
  · split
    · exact (hsessions _).goOn hcall rfl rfl
    · split
      · exact (hsessions _).goOn hcall rfl rfl
      · exact ((hsessions _).note rfl).goOn hcall rfl rfl

private theorem quiet_timeOut (n : Nat) : Quiet r (r.timeOut n) := by
  unfold PairingResponder.timeOut
  split
  · next hcall =>
    split
    · exact (Quiet.refl r).goOn hcall rfl rfl
    · exact Quiet.refl r
  · next hcall =>
    split
    · exact (Quiet.refl r).goOn hcall rfl rfl
    · exact Quiet.refl r
  · exact Quiet.refl r

/-- A section of a call other than the lookup and the record of a hello. -/
theorem quiet_advance {n : Nat} {draw : Draw}
    (hhello : ∀ call ∈ r.calls[n]?, call.bucket = none) : Quiet r (r.advance c n draw) := by
  unfold PairingResponder.advance
  split
  · next hcall => cases hhello _ hcall
  · next hcall => cases hhello _ hcall
  · next hcall => exact quiet_helloConsume hcall
  · next hcall => exact (Quiet.refl r).goOn hcall rfl rfl
  · next hcall => exact quiet_helloCreate draw hcall
  · next hcall => exact quiet_revealCheck hcall
  · next hcall =>
    have hsessions : ∀ sessions, Quiet r { r with sessions := sessions } := fun _ ↦
      .tables rfl rfl rfl rfl
    exact (hsessions _).goOn hcall rfl rfl
  · next hcall => exact quiet_awaitDecision hcall
  · next hcall =>
    split
    · exact (Quiet.refl r).goOn hcall rfl rfl
    · exact Quiet.refl r
  · next hcall => exact quiet_confirmTake hcall draw.unixSecs
  · next session hcall =>
    exact (quiet_removeSession (Quiet.refl r) session).goOn hcall rfl rfl
  · exact Quiet.refl r
  · exact Quiet.refl r

end Quiet

/-! ## The invariant -/

/-- Wrong codes from `start` on, of buckets that `p` admits. -/
private def wrongSince (p : String → Bool) (start : Nat) (history : List PairingEvent) : Nat :=
  history.countP fun event ↦ event.wrong.any fun wrong ↦ p wrong.1 && decide (start ≤ wrong.2)

/-- The buckets that `p` admits stay below the limit. -/
private structure Bounded (p : String → Bool) (limit : Nat) (r : PairingResponder) : Prop where
  /-- Failures on record and hellos in between find room. -/
  room : timesOn p (fun _ ↦ true) r.failures + r.calls.countP (Call.inBetween p) ≤ limit
  /-- Wrong codes of the window are on record or will be. -/
  seen : ∀ start, r.clock < start + failedHelloWindow → wrongSince p start r.history ≤
    timesOn p (fun time ↦ decide (start ≤ time)) r.failures + r.calls.countP (Call.failedIn p)
  /-- Wrong codes of any window are below the limit. -/
  windows : ∀ start, wrongIn p start r.history ≤ limit

/-- Each bucket and all buckets together stay below their limits. -/
private structure Throttled (r : PairingResponder) : Prop where
  bucket : ∀ key, Bounded (· == key) maxFailedHellos r
  total : Bounded (fun _ ↦ true) maxFailedHellosGlobal r
  /-- No wrong code comes from the future. -/
  timely : ∀ event ∈ r.history, ∀ wrong ∈ event.wrong, wrong.2 ≤ r.clock

section Steps

variable {c : Primitives} {p : String → Bool} {limit : Nat} {r r' : PairingResponder}

private theorem Bounded.quiet (h : Bounded p limit r) (hquiet : Quiet r r') :
    Bounded p limit r' := by
  have hinBetween := hquiet.calls (Call.inBetween p) fun call hcall ↦ by
    rw [Call.inBetween, hcall, Option.any_none]
  have hfailedIn := hquiet.calls (Call.failedIn p) fun call hcall ↦ by
    rw [Call.failedIn, Call.inBetween, hcall, Option.any_none, Bool.and_false]
  constructor
  · rw [hquiet.failures, hinBetween]
    exact h.room
  · intro start hstart
    rw [hquiet.clock] at hstart
    rw [hquiet.failures, hfailedIn, wrongSince, hquiet.history _ fun event hevent ↦ by
      rw [hevent, Option.any_none]]
    exact h.seen start hstart
  · intro start
    rw [wrongIn, hquiet.history _ fun event hevent ↦ by rw [hevent, Option.any_none]]
    exact h.windows start

/-- Time passes and the failures are pruned. -/
theorem Bounded.later (h : Bounded p limit r) {clock : Nat} (hclock : r.clock ≤ clock) :
    Bounded p limit { r with clock := clock } := by
  refine ⟨h.room, ?_, h.windows⟩
  intro start hstart
  exact h.seen start (Nat.lt_of_le_of_lt hclock hstart)

private theorem Bounded.prune (h : Bounded p limit r) :
    Bounded p limit { r with failures := pruneFailures r.clock r.failures } := by
  refine ⟨?_, ?_, h.windows⟩
  · exact Nat.le_trans (Nat.add_le_add_right (timesOn_pruneFailures_le r.failures) _) h.room
  · intro start hstart
    change _ ≤ timesOn p _ (pruneFailures r.clock r.failures) + _
    rw [timesOn_pruneFailures_eq]
    · exact h.seen start hstart
    · intro time htime
      have htime : start ≤ time := by simpa using htime
      have hwindow : 0 < failedHelloWindow := by decide
      change r.clock < start + failedHelloWindow at hstart
      omega

/-- A hello is let through. -/
theorem Bounded.allow (h : Bounded p limit r) {req : HelloRequest} {addrs : List String}
    {source : Option IpAddr} (hroom : p (failureBucketKey source) = true →
      timesOn p (fun _ ↦ true) r.failures + r.calls.countP (Call.inBetween p) < limit) :
    Bounded p limit (r.begin (.helloAllowed req addrs source)) := by
  have hcount : ∀ q : Call → Bool, (r.begin (.helloAllowed req addrs source)).calls.countP q =
      r.calls.countP q + if q (.helloAllowed req addrs source) then 1 else 0 := by
    intro q
    change (r.calls ++ [_]).countP q = _
    rw [List.countP_append, List.countP_singleton]
  refine ⟨?_, ?_, h.windows⟩
  · rw [hcount]
    by_cases hp : p (failureBucketKey source) = true
    · have hlt := hroom hp
      simp only [Call.inBetween, Call.bucket, Option.any_some, hp, if_true]
      exact hlt
    · simp only [Call.inBetween, Call.bucket, Option.any_some, hp]
      exact h.room
  · intro start hstart
    rw [hcount]
    exact Nat.le_trans (h.seen start hstart) (Nat.add_le_add_left (Nat.le_add_right _ _) _)

/-- A hello is over without a failure, or failed with a code that was right. -/
theorem Bounded.pass (h : Bounded p limit r) {n : Nat} {old new : Call}
    (hcall : r.calls[n]? = some old) (hnew : new.bucket = none ∨ new.bucket = old.bucket)
    (hold : old.hasFailed = false) : Bounded p limit (r.goOn n new) := by
  have hinBetween := countP_goOn (Call.inBetween p) new hcall
  have hfailedIn := countP_goOn (Call.failedIn p) new hcall
  have hless : (if new.inBetween p then 1 else 0) ≤ if old.inBetween p then 1 else 0 := by
    cases hnew with
    | inl hnone => simp [Call.inBetween, hnone]
    | inr hsame => rw [Call.inBetween, Call.inBetween, hsame]
  rw [Call.failedIn, hold, Bool.false_and] at hfailedIn
  refine ⟨?_, ?_, h.windows⟩
  · have hroom := h.room
    change timesOn p (fun _ ↦ true) r.failures + (r.goOn n new).calls.countP (Call.inBetween p) ≤ limit
    omega
  · intro start hstart
    have hseen := h.seen start hstart
    change wrongSince p start r.history ≤ timesOn p _ r.failures +
      (r.goOn n new).calls.countP (Call.failedIn p)
    simp only [Bool.false_eq_true, if_false] at hfailedIn
    omega

private theorem timesOn_le (f : Nat → Bool) (failures : List FailureBucket) :
    timesOn p f failures ≤ timesOn p (fun _ ↦ true) failures := by
  unfold timesOn
  induction failures with
  | nil => exact Nat.le_refl _
  | cons bucket failures ih =>
    rw [List.map_cons, List.map_cons, List.sum_cons, List.sum_cons]
    apply Nat.add_le_add _ ih
    split
    · exact List.countP_mono_left fun _ _ _ ↦ rfl
    · exact Nat.le_refl _

/-- A window that is not over is bounded by what is on record or will be. -/
theorem wrongIn_le_of_seen {start : Nat}
    (hroom : timesOn p (fun _ ↦ true) r.failures + r.calls.countP (Call.inBetween p) ≤ limit)
    (hseen : wrongSince p start r.history ≤
      timesOn p (fun time ↦ decide (start ≤ time)) r.failures + r.calls.countP (Call.failedIn p)) :
    wrongIn p start r.history ≤ limit := by
  have hevents : wrongIn p start r.history ≤ wrongSince p start r.history := by
    apply List.countP_mono_left
    intro event _ hwrong
    cases hevent : event.wrong with
    | none => simp [hevent] at hwrong
    | some wrong =>
      simp only [hevent, Option.any_some, Bool.and_eq_true] at hwrong ⊢
      exact hwrong.1
  have htimes := timesOn_le (p := p) (fun time ↦ decide (start ≤ time)) r.failures
  have hcalls : r.calls.countP (Call.failedIn p) ≤ r.calls.countP (Call.inBetween p) := by
    apply List.countP_mono_left
    intro call _ hcall
    rw [Call.failedIn, Bool.and_eq_true] at hcall
    exact hcall.2
  omega

/-- A code is found wrong: the hello was counted as one in between and has failed now. -/
theorem Bounded.wrong (h : Bounded p limit r) {n : Nat} {req : HelloRequest}
    {addrs : List String} {source : Option IpAddr} {error : LinkError}
    (hcall : r.calls[n]? = some (.helloAllowed req addrs source)) :
    Bounded p limit ((r.note (.compared n (failureBucketKey source) false r.clock)).goOn n
      (.helloFailed source error)) := by
  let event : PairingEvent := .compared n (failureBucketKey source) false r.clock
  let new : Call := .helloFailed source error
  have hinBetween := countP_goOn (Call.inBetween p) new hcall
  have hfailedIn := countP_goOn (Call.failedIn p) new hcall
  have hroom : timesOn p (fun _ ↦ true) r.failures +
      (r.goOn n new).calls.countP (Call.inBetween p) ≤ limit := by
    have hroom := h.room
    change _ + (if p (failureBucketKey source) then 1 else 0) =
      _ + (if p (failureBucketKey source) then 1 else 0) at hinBetween
    omega
  have hseen : ∀ start, r.clock < start + failedHelloWindow →
      wrongSince p start (r.history ++ [event]) ≤
        timesOn p (fun time ↦ decide (start ≤ time)) r.failures +
          (r.goOn n new).calls.countP (Call.failedIn p) := by
    intro start hstart
    have hseen := h.seen start hstart
    have hone : (if p (failureBucketKey source) && decide (start ≤ r.clock) then 1 else 0) ≤
        if p (failureBucketKey source) then 1 else 0 := by
      cases p (failureBucketKey source)
      · exact Nat.le_refl _
      · split
        · exact Nat.le_refl _
        · exact Nat.zero_le _
    change _ + 0 = _ + (if p (failureBucketKey source) then 1 else 0) at hfailedIn
    rw [wrongSince, List.countP_append, List.countP_singleton]
    change wrongSince p start r.history +
      (if p (failureBucketKey source) && decide (start ≤ r.clock) then 1 else 0) ≤ _
    omega
  refine ⟨hroom, hseen, ?_⟩
  intro start
  by_cases hstart : r.clock < start + failedHelloWindow
  · exact wrongIn_le_of_seen (r := (r.note event).goOn n new) hroom (hseen start hstart)
  · -- The window is over, the code does not count.
    change wrongIn p start (r.history ++ [event]) ≤ limit
    rw [wrongIn, List.countP_append, List.countP_singleton]
    have hout : (event.wrong.any fun wrong ↦ p wrong.1 && decide (start ≤ wrong.2) &&
        decide (wrong.2 < start + failedHelloWindow)) = false := by
      simp [event, PairingEvent.wrong, hstart]
    rw [hout]
    exact h.windows start

/-- A failed hello is put on record. -/
theorem Bounded.record (h : Bounded p limit r) {n : Nat} {source : Option IpAddr}
    {error error' : LinkError} (hcall : r.calls[n]? = some (.helloFailed source error))
    (htimely : ∀ event ∈ r.history, ∀ wrong ∈ event.wrong, wrong.2 ≤ r.clock)
    (hadd : ∀ (p : String → Bool) (f : Nat → Bool),
      timesOn p f (recordFailedHello r.clock source r.failures) =
        timesOn p f (pruneFailures r.clock r.failures) +
          if p (failureBucketKey source) && f r.clock then 1 else 0) :
    Bounded p limit (r.helloRecord n source error') := by
  have hinBetween := countP_goOn (Call.inBetween p) (.returned (.error error')) hcall
  have hfailedIn := countP_goOn (Call.failedIn p) (.returned (.error error')) hcall
  change _ + (if p (failureBucketKey source) then 1 else 0) = _ + 0 at hinBetween
  change _ + (if p (failureBucketKey source) then 1 else 0) = _ + 0 at hfailedIn
  refine ⟨?_, ?_, h.windows⟩
  · have hpruned := h.prune.room
    change timesOn p (fun _ ↦ true) (recordFailedHello r.clock source r.failures) +
      (r.goOn n _).calls.countP (Call.inBetween p) ≤ limit
    rw [hadd, Bool.and_true]
    change timesOn p _ (pruneFailures r.clock r.failures) + r.calls.countP _ ≤ limit at hpruned
    omega
  · intro start hstart
    change wrongSince p start r.history ≤
      timesOn p _ (recordFailedHello r.clock source r.failures) +
        (r.goOn n _).calls.countP (Call.failedIn p)
    by_cases hlate : start ≤ r.clock
    · have hseen := h.prune.seen start hstart
      change wrongSince p start r.history ≤
        timesOn p _ (pruneFailures r.clock r.failures) + r.calls.countP _ at hseen
      rw [hadd, decide_eq_true hlate, Bool.and_true]
      omega
    · have hzero : wrongSince p start r.history = 0 := by
        rw [wrongSince, List.countP_eq_zero]
        intro event hevent hany
        obtain ⟨wrong, hwrong, hadmitted⟩ := Option.any_eq_true _ _ |>.mp hany
        have htime := htimely event hevent wrong hwrong
        rw [Bool.and_eq_true, decide_eq_true_eq] at hadmitted
        omega
      omega

private theorem Throttled.quiet (h : Throttled r) (hquiet : Quiet r r') : Throttled r' := by
  refine ⟨fun key ↦ (h.bucket key).quiet hquiet, h.total.quiet hquiet, ?_⟩
  have hnone : r.history.countP (fun event ↦ event.wrong.any fun wrong ↦ decide (r.clock < wrong.2)) =
      0 := by
    rw [List.countP_eq_zero]
    intro event hevent hany
    obtain ⟨wrong, hwrong, hlate⟩ := Option.any_eq_true _ _ |>.mp hany
    exact absurd (h.timely event hevent wrong hwrong) (Nat.not_le.mpr (of_decide_eq_true hlate))
  rw [← hquiet.history _ fun event hevent ↦ by rw [hevent, Option.any_none],
    List.countP_eq_zero] at hnone
  intro event hevent wrong hwrong
  rw [hquiet.clock]
  by_contra hlate
  apply hnone event hevent
  rw [Option.any_eq_true]
  exact ⟨wrong, hwrong, decide_eq_true (Nat.not_le.mp hlate)⟩

private theorem Throttled.prune (h : Throttled r) :
    Throttled { r with failures := pruneFailures r.clock r.failures } :=
  ⟨fun key ↦ (h.bucket key).prune, h.total.prune, h.timely⟩

private theorem throttled_handleHello (h : Throttled r) {req : HelloRequest}
    {source : Option IpAddr} (hroom : HeadRoom r (.hello req source)) :
    Throttled (r.handleHello req source) := by
  unfold PairingResponder.handleHello
  split
  · exact h.quiet ((Quiet.refl r).begin rfl)
  · next hversion =>
    split
    · exact h.quiet ((Quiet.refl r).begin rfl)
    · next addrs haddrs =>
      simp only
      split
      · exact h.prune.quiet ((Quiet.refl _).begin rfl)
      · next hthrottled =>
        obtain ⟨hbucket, htotal⟩ := hroom (not_not.mp hversion) (by rw [haddrs]; rfl)
          (Bool.eq_false_of_not_eq_true hthrottled)
        refine ⟨fun key ↦ (h.prune.bucket key).allow ?_, h.prune.total.allow fun _ ↦ htotal,
          h.prune.timely⟩
        intro hkey
        rw [← eq_of_beq hkey]
        exact hbucket

private theorem throttled_helloLookup (h : Throttled r) {n : Nat} {req : HelloRequest}
    {addrs : List String} {source : Option IpAddr}
    (hcall : r.calls[n]? = some (.helloAllowed req addrs source)) :
    Throttled (r.helloLookup c n req addrs source) := by
  have hpass : ∀ {r : PairingResponder} {new : Call}, Throttled r →
      r.calls[n]? = some (.helloAllowed req addrs source) →
      new.bucket = none ∨ new.bucket = some (failureBucketKey source) →
      Throttled (r.goOn n new) := fun h hcall hnew ↦
    ⟨fun key ↦ (h.bucket key).pass hcall hnew rfl, h.total.pass hcall hnew rfl, h.timely⟩
  have hcodes : Throttled { r with codes := pruneCodes r.clock r.codes } :=
    h.quiet (.tables rfl rfl rfl rfl)
  unfold PairingResponder.helloLookup
  split
  · exact hpass h hcall (.inl rfl)
  · simp only
    cases (pruneCodes r.clock r.codes).any fun entry ↦ entry.code == req.code with
    | false =>
      simp only [Bool.not_false, if_true]
      refine ⟨fun key ↦ (hcodes.bucket key).wrong hcall, hcodes.total.wrong hcall, ?_⟩
      intro event hevent wrong hwrong
      rcases List.mem_append.mp hevent with hold | hnew
      · exact h.timely event hold wrong hwrong
      · rw [List.mem_singleton.mp hnew] at hwrong
        cases hwrong
        exact Nat.le_refl _
    | true =>
      have hnoted : Throttled ({ r with codes := pruneCodes r.clock r.codes }.note
          (.compared n (failureBucketKey source) true r.clock)) :=
        hcodes.quiet ((Quiet.refl _).note rfl)
      simp only [Bool.not_true, Bool.false_eq_true, if_false]
      split
      · exact hpass hnoted hcall (.inr rfl)
      · exact hpass hnoted hcall (.inl rfl)

private theorem throttled_helloRecord (h : Throttled r) {n : Nat} {source : Option IpAddr}
    {error : LinkError} (hcall : r.calls[n]? = some (.helloFailed source error)) :
    Throttled (r.helloRecord n source error) := by
  -- The hello itself is one in between, so that the table is not full.
  have hone : 0 < r.calls.countP (Call.inBetween fun _ ↦ true) :=
    List.countP_pos_iff.mpr ⟨_, List.mem_of_getElem? hcall, rfl⟩
  have htotal := h.prune.total.room
  change timesOn _ _ (pruneFailures r.clock r.failures) + r.calls.countP _ ≤ maxFailedHellosGlobal
    at htotal
  have hbucket := (h.prune.bucket (failureBucketKey source)).room
  change timesOn _ _ (pruneFailures r.clock r.failures) + r.calls.countP _ ≤ maxFailedHellos
    at hbucket
  have hlength : (pruneFailures r.clock r.failures).length < maxFailureBuckets := by
    have hle := length_pruneFailures_le r.clock r.failures
    have hlimits : maxFailedHellosGlobal ≤ maxFailureBuckets := by decide
    omega
  have htimes : timesOn (· == failureBucketKey source) (fun _ ↦ true)
      (pruneFailures r.clock r.failures) < maxFailedHelloRecords := by
    have hlimits : maxFailedHellos < maxFailedHelloRecords := by decide
    omega
  have hadd : ∀ (p : String → Bool) (f : Nat → Bool),
      timesOn p f (recordFailedHello r.clock source r.failures) =
        timesOn p f (pruneFailures r.clock r.failures) +
          if p (failureBucketKey source) && f r.clock then 1 else 0 :=
    fun _ _ ↦ timesOn_recordFailedHello hlength htimes
  exact ⟨fun key ↦ (h.bucket key).record hcall h.timely hadd, h.total.record hcall h.timely hadd,
    h.timely⟩

/-- Each step in which a hello that is let through finds room keeps the bounds. -/
theorem throttled_step (r : PairingResponder) (op : PairingOp) (h : Throttled r)
    (hroom : HeadRoom r op) : Throttled (r.step c op) := by
  cases op with
  | tick nanos =>
    have hclock : r.clock ≤ r.clock + nanos := Nat.le_add_right _ _
    refine ⟨fun key ↦ (h.bucket key).later hclock, h.total.later hclock, ?_⟩
    intro event hevent wrong hwrong
    exact Nat.le_trans (h.timely event hevent wrong hwrong) hclock
  | generateCode n =>
    refine h.quiet (Quiet.note ?_ rfl)
    exact .tables rfl rfl rfl rfl
  | revokeCodes =>
    refine h.quiet (Quiet.note ?_ rfl)
    exact .tables rfl rfl rfl rfl
  | setSelfInfo info => exact h.quiet (.tables rfl rfl rfl rfl)
  | hello req source => exact throttled_handleHello h hroom
  | reveal req => exact h.quiet (quiet_handleReveal req)
  | setLocalDecision session accept => exact h.quiet (quiet_setLocalDecision session accept)
  | confirm session confirm => exact h.quiet (quiet_handleConfirm session confirm)
  | advance n draw =>
    by_cases hhello : ∀ call ∈ r.calls[n]?, call.bucket = none
    · exact h.quiet (quiet_advance hhello)
    · push Not at hhello
      obtain ⟨call, hcall, hbucket⟩ := hhello
      change Throttled (r.advance c n draw)
      unfold PairingResponder.advance
      rw [Option.mem_def.mp hcall]
      cases call with
      | helloAllowed req addrs source => exact throttled_helloLookup h hcall
      | helloFailed source error => exact throttled_helloRecord h hcall
      | _ => exact absurd rfl hbucket
  | timeOut n => exact h.quiet (quiet_timeOut n)
  | pruneCodes => exact h.quiet (.tables rfl rfl rfl rfl)
  | pruneSessions => exact h.quiet (.tables rfl rfl rfl rfl)
  | pruneFailures => exact h.prune

end Steps

/-- In every run in which each hello that is let through finds room, the wrong codes of any
window stay below the limit of a bucket and below the limit of all buckets. -/
theorem guesses_bounded (c : Primitives) (identity : LinkIdentity) (selfInfo : SelfInfo)
    (ops : List PairingOp)
    (h : EveryStep (PairingResponder.step c) HeadRoom (.new identity selfInfo) ops)
    (start : Nat) :
    let history := (run (PairingResponder.step c) (.new identity selfInfo) ops).history
    (∀ bucket, wrongIn (· == bucket) start history ≤ maxFailedHellos) ∧
      wrongIn (fun _ ↦ true) start history ≤ maxFailedHellosGlobal := by
  have hnew : Throttled (PairingResponder.new identity selfInfo) := by
    have hbounded : ∀ p limit, Bounded p limit (PairingResponder.new identity selfInfo) := by
      intro p limit
      constructor <;> simp [PairingResponder.new, timesOn, wrongIn, wrongSince]
    exact ⟨fun _ ↦ hbounded _ _, hbounded _ _, by simp [PairingResponder.new]⟩
  have hthrottled := run_invariant throttled_step hnew h
  exact ⟨fun bucket ↦ (hthrottled.bucket bucket).windows start, hthrottled.total.windows start⟩

/-- A hello with a code that was never generated. -/
def guess : HelloRequest where
  protocolVersion := 2
  code := "123456"
  initiatorIdPub := Vector.replicate 32 1
  initiatorCommit := Vector.replicate 32 0
  initiatorSig := Vector.replicate 64 0
  name := "Desk"
  platform := none
  appVersion := none
  initiatorAddrs := []
  requestControl := false

/-- Random bytes that no hello of the examples uses. -/
def noDraw : Draw := ⟨Vector.replicate 32 0, Vector.replicate 32 0, "", 0⟩

/-- Guesses one after another: each is on record before the next one comes. -/
def guessesInTurn (n : Nat) : List PairingOp :=
  (List.range n).flatMap fun i ↦ [.hello guess none, .advance i noDraw, .advance i noDraw]

/-- Guesses at once: all are let through before one is on record. -/
def guessesAtOnce (n : Nat) : List PairingOp :=
  List.replicate n (.hello guess none) ++ (List.range n).map fun i ↦ .advance i noDraw

/-- Of twelve guesses in turn ten are compared. -/
theorem guesses_bounded_in_turn :
    let history := (run (PairingResponder.step plainPrimitives)
      (.new ⟨Vector.replicate 32 2⟩ ⟨"Phone", none, none, none⟩) (guessesInTurn 12)).history
    wrongIn (· == unknownSourceKey) 0 history = 10 ∧
      (∀ bucket, wrongIn (· == bucket) 0 history ≤ maxFailedHellos) ∧
        wrongIn (fun _ ↦ true) 0 history ≤ maxFailedHellosGlobal := by
  refine ⟨by decide +kernel, ?_⟩
  apply guesses_bounded
  decide +kernel

/-- Of eleven guesses at once all are compared. -/
theorem guesses_at_once :
    ¬ wrongIn (· == unknownSourceKey) 0 (run (PairingResponder.step plainPrimitives)
      (.new ⟨Vector.replicate 32 2⟩ ⟨"Phone", none, none, none⟩) (guessesAtOnce 11)).history ≤
        maxFailedHellos := by
  decide +kernel

end Link
