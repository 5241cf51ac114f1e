import FluxDown.Link.PairingSafety

/-!
# A refused session makes no record

Library `Link`. A confirm reads the user's decision and takes the session out of the table under
different locks. As long as no refusal comes between the two, a record needs an approval that
is the last decision; a refusal that does come between is overlooked.
-/

namespace Link

open Base

namespace PairingEvent

/-- The user's decision on the session. -/
def decisionOn (session : String) : PairingEvent → Option Bool
  | .decided session' accept => if session' = session then some accept else none
  | _ => none

end PairingEvent

/-- The user's last decision on the session. -/
def lastDecision (session : String) (history : List PairingEvent) : Option Bool :=
  (history.filterMap (PairingEvent.decisionOn session)).getLast?

/-- No record of the session comes after the initiator's refusal of it, and none after the
user's refusal of it without an approval in between. -/
structure RefusalFinal (session : String) (history : List PairingEvent) : Prop where
  initiator : ∀ before between after record,
    history ≠ before ++ .refused session :: (between ++ .recorded session record :: after)
  user : ∀ before between after record,
    history = before ++ .decided session false :: (between ++ .recorded session record :: after) →
      .decided session true ∈ between

/-- The decision that is stored with a session. -/
def SessionStage.decision : SessionStage → Option Bool
  | .awaitingReveal .. => none
  | .revealed _ _ _ decision => decision

/-- The session was revealed. -/
def SessionStage.isRevealed : SessionStage → Bool
  | .awaitingReveal .. => false
  | .revealed .. => true

/-- The confirm read an approval of the session. -/
def Call.readApproval (session : String) : Call → Bool
  | .confirmRead session' decision => session' == session && decision
  | _ => false

/-- A refusal of the session that is stored comes while no confirm that read an approval of it is
about to take it. -/
def RefusedInTime (session : String) (r : PairingResponder) : PairingOp → Prop
  | .setLocalDecision session' accept => session' = session → accept = false →
    (∃ entry ∈ pruneSessions r.clock r.sessions session, entry.stage.isRevealed) →
      ∀ call ∈ r.calls, call.readApproval session = false
  | _ => True

instance (session : String) (r : PairingResponder) : ∀ op, Decidable (RefusedInTime session r op)
  | .setLocalDecision session' accept =>
    inferInstanceAs (Decidable (session' = session → accept = false →
      (∃ entry ∈ pruneSessions r.clock r.sessions session, entry.stage.isRevealed) →
        ∀ call ∈ r.calls, call.readApproval session = false))
  | .tick _ | .generateCode _ | .revokeCodes | .setSelfInfo _ | .hello _ _ | .reveal _
  | .confirm _ _ | .advance _ _ | .timeOut _ | .pruneCodes | .pruneSessions
  | .pruneFailures => inferInstanceAs (Decidable True)

/-! ## The last decision -/

private theorem lastDecision_concat (session : String) (history : List PairingEvent)
    (event : PairingEvent) :
    lastDecision session (history ++ [event]) =
      (event.decisionOn session).or (lastDecision session history) := by
  unfold lastDecision
  rw [List.filterMap_append]
  cases hevent : event.decisionOn session with
  | none => simp [hevent]
  | some accept => simp [hevent]

/-- An approval is the last decision after a refusal only if it came after it. -/
theorem approved_after {session : String} {before between : List PairingEvent}
    (h : lastDecision session (before ++ .decided session false :: between) = some true) :
    .decided session true ∈ between := by
  unfold lastDecision at h
  rw [List.filterMap_append, List.filterMap_cons_some (b := false) (by simp [PairingEvent.decisionOn]),
    List.getLast?_append] at h
  have hlast : (false :: between.filterMap (PairingEvent.decisionOn session)).getLast? = some true := by
    rw [List.getLast?_cons] at h ⊢
    simpa using h
  rw [List.getLast?_cons] at hlast
  have hmem : true ∈ between.filterMap (PairingEvent.decisionOn session) := by
    cases hbetween : (between.filterMap (PairingEvent.decisionOn session)).getLast? with
    | none => rw [hbetween] at hlast; cases hlast
    | some accept =>
      rw [hbetween] at hlast
      cases hlast
      exact List.mem_of_getLast? hbetween
  obtain ⟨event, hevent, hdecision⟩ := List.mem_filterMap.mp hmem
  cases event with
  | decided session' accept =>
    simp only [PairingEvent.decisionOn] at hdecision
    split at hdecision
    · next hsame =>
      cases hdecision
      rwa [hsame] at hevent
    · cases hdecision
  | _ => cases hdecision

/-! ## The invariant -/

/-- The table, the calls and the records agree with the user's last decision on the session. -/
structure Heeded (session : String) (r : PairingResponder) : Prop where
  /-- The decision in the table is the last one. -/
  table : ∀ entry, r.sessions session = some entry →
    lastDecision session r.history = entry.stage.decision
  /-- There was none while a reveal holds the session. -/
  held : ∀ call ∈ r.calls, call.holds = some session → lastDecision session r.history = none
  /-- There was none before the session was created. -/
  uncreated : session ∉ r.history.filterMap PairingEvent.createdSession →
    lastDecision session r.history = none
  /-- A confirm read the last one. -/
  read : ∀ call ∈ r.calls, call.readApproval session = true →
    lastDecision session r.history = some true
  /-- Records came after an approval. -/
  records : ∀ before after record, r.history = before ++ .recorded session record :: after →
    lastDecision session before = some true

section Changes

variable {c : Primitives} {session : String} {r : PairingResponder}

/-- The session may be dropped from the table. -/
theorem Heeded.restrict {r' : PairingResponder} (h : Heeded session r)
    (hsession : ∀ entry, r'.sessions session = some entry → r.sessions session = some entry)
    (hcalls : r'.calls = r.calls) (hhistory : r'.history = r.history) : Heeded session r' := by
  constructor
  · rw [hhistory]
    intro entry hentry
    exact h.table entry (hsession entry hentry)
  · rw [hcalls, hhistory]
    exact h.held
  · rw [hhistory]
    exact h.uncreated
  · rw [hcalls, hhistory]
    exact h.read
  · rw [hhistory]
    exact h.records

/-- One call is in a new place that agrees with the last decision. -/
theorem Heeded.move (h : Heeded session r) {new : Call} {calls : List Call}
    (hmem : ∀ call ∈ calls, call ∈ r.calls ∨ call = new)
    (hholds : new.holds = some session → lastDecision session r.history = none)
    (hread : new.readApproval session = true → lastDecision session r.history = some true) :
    Heeded session { r with calls := calls } := by
  refine ⟨h.table, ?_, h.uncreated, ?_, h.records⟩
  · intro call hcall hheld
    rcases hmem call hcall with hold | rfl
    · exact h.held call hold hheld
    · exact hholds hheld
  · intro call hcall hreads
    rcases hmem call hcall with hold | rfl
    · exact h.read call hold hreads
    · exact hread hreads

private theorem Heeded.goOn (h : Heeded session r) (n : Nat) {new : Call}
    (hholds : new.holds = some session → lastDecision session r.history = none)
    (hread : new.readApproval session = true → lastDecision session r.history = some true) :
    Heeded session (r.goOn n new) :=
  h.move (fun _ hcall ↦ List.mem_or_eq_of_mem_set hcall) hholds hread

private theorem Heeded.begin (h : Heeded session r) {new : Call}
    (hholds : new.holds = some session → lastDecision session r.history = none)
    (hread : new.readApproval session = true → lastDecision session r.history = some true) :
    Heeded session (r.begin new) := by
  refine h.move ?_ hholds hread
  intro call hcall
  rw [List.mem_append, List.mem_singleton] at hcall
  exact hcall

/-- A call that holds nothing and read nothing is free to go on. -/
theorem Heeded.goOnFree (h : Heeded session r) (n : Nat) {new : Call}
    (hholds : new.holds = none) (hread : new.readApproval session = false) :
    Heeded session (r.goOn n new) := by
  apply h.goOn n
  · intro hheld
    rw [hholds] at hheld
    cases hheld
  · intro hreads
    rw [hread] at hreads
    cases hreads

private theorem Heeded.beginFree (h : Heeded session r) {new : Call}
    (hholds : new.holds = none) (hread : new.readApproval session = false) :
    Heeded session (r.begin new) := by
  apply h.begin
  · intro hheld
    rw [hholds] at hheld
    cases hheld
  · intro hreads
    rw [hread] at hreads
    cases hreads

/-- An event that is no decision on the session; a record of the session needs an approval. -/
theorem Heeded.note (h : Heeded session r) {event : PairingEvent}
    (hdecision : event.decisionOn session = none)
    (hrecord : ∀ record, event = .recorded session record →
      lastDecision session r.history = some true) : Heeded session (r.note event) := by
  have hlast : lastDecision session (r.history ++ [event]) = lastDecision session r.history := by
    rw [lastDecision_concat, hdecision, Option.none_or]
  constructor
  · intro entry hentry
    exact hlast.trans (h.table entry hentry)
  · intro call hcall hholds
    exact hlast.trans (h.held call hcall hholds)
  · intro huncreated
    apply hlast.trans
    apply h.uncreated
    intro hcreated
    exact huncreated (mem_filterMap_concat.mpr (.inl hcreated))
  · intro call hcall hread
    exact hlast.trans (h.read call hcall hread)
  · intro before after record hhistory
    change r.history ++ [event] = _ at hhistory
    rcases List.eq_nil_or_concat after with rfl | ⟨after, last, rfl⟩
    · obtain ⟨hbefore, hevent⟩ := List.append_inj' hhistory rfl
      rw [← hbefore]
      exact hrecord record (List.cons.inj hevent).1
    · apply h.records before after record
      have hhistory : r.history ++ [event] =
          (before ++ .recorded session record :: after) ++ [last] := by
        rw [hhistory]
        simp
      exact (List.append_inj' hhistory rfl).1

/-- Another session's place in the table does not matter. -/
theorem Heeded.update_ne (h : Heeded session r) {session' : String}
    (hne : session' ≠ session) (entry : Option ConfirmEntry) :
    Heeded session { r with sessions := Function.update r.sessions session' entry } := by
  refine h.restrict ?_ rfl rfl
  intro entry' hentry
  change Function.update r.sessions session' entry session = _ at hentry
  rwa [Function.update_of_ne (Ne.symm hne)] at hentry

/-- A session is put into the table with the last decision. -/
theorem Heeded.insert (h : Heeded session r) {entry : ConfirmEntry}
    (hdecision : lastDecision session r.history = entry.stage.decision) :
    Heeded session { r with sessions := Function.update r.sessions session (some entry) } := by
  refine ⟨?_, h.held, h.uncreated, h.read, h.records⟩
  intro entry' hentry
  change Function.update r.sessions session (some entry) session = _ at hentry
  rw [Function.update_self] at hentry
  cases hentry
  exact hdecision

private theorem Heeded.prune (h : Heeded session r) :
    Heeded session { r with sessions := pruneSessions r.clock r.sessions } :=
  h.restrict (fun _ ↦ pruneSessions_some) rfl rfl

private theorem Heeded.remove (h : Heeded session r) (session' : String) :
    Heeded session { r with sessions := Function.update r.sessions session' none } := by
  refine h.restrict ?_ rfl rfl
  intro entry hentry
  change Function.update r.sessions session' none session = _ at hentry
  rw [Function.update_apply] at hentry
  split at hentry
  · cases hentry
  · exact hentry

/-! ## Sections keep the invariant -/

private theorem heeded_handleHello (h : Heeded session r) (req : HelloRequest)
    (source : Option IpAddr) : Heeded session (r.handleHello req source) := by
  unfold PairingResponder.handleHello
  split
  · exact h.beginFree rfl rfl
  · split
    · exact h.beginFree rfl rfl
    · have hpruned : Heeded session { r with failures := pruneFailures r.clock r.failures } :=
        h.restrict (fun _ hsame ↦ hsame) rfl rfl
      simp only
      split
      · exact hpruned.beginFree rfl rfl
      · exact hpruned.beginFree rfl rfl

private theorem heeded_helloLookup (h : Heeded session r) (n : Nat) (req : HelloRequest)
    (addrs : List String) (source : Option IpAddr) :
    Heeded session (r.helloLookup c n req addrs source) := by
  have hnoted : ∀ found, Heeded session ({ r with codes := pruneCodes r.clock r.codes }.note
      (.compared n (failureBucketKey source) found r.clock)) := by
    intro found
    have hpruned : Heeded session { r with codes := pruneCodes r.clock r.codes } :=
      h.restrict (fun _ hsame ↦ hsame) rfl rfl
    exact hpruned.note rfl fun _ hrecord ↦ by cases hrecord
  unfold PairingResponder.helloLookup
  split
  · exact h.goOnFree n rfl rfl
  · simp only
    split
    · exact (hnoted _).goOnFree n rfl rfl
    · split
      · exact (hnoted _).goOnFree n rfl rfl
      · exact (hnoted _).goOnFree n rfl rfl

private theorem heeded_helloConsume (h : Heeded session r) (n : Nat) (req : HelloRequest)
    (addrs : List String) : Heeded session (r.helloConsume n req addrs) := by
  have hcodes : ∀ codes, Heeded session { r with codes := codes } := fun _ ↦
    h.restrict (fun _ hsame ↦ hsame) rfl rfl
  unfold PairingResponder.helloConsume
  simp only
  split
  · exact (hcodes _).goOnFree n rfl rfl
  · exact ((hcodes _).note rfl fun _ hrecord ↦ by cases hrecord).goOnFree n rfl rfl

private theorem heeded_helloCreate (h : Heeded session r) {n : Nat} {req : HelloRequest}
    {addrs : List String} {me : SelfInfo} {draw : Draw}
    (hfresh : draw.sessionId ∉ r.history.filterMap PairingEvent.createdSession) :
    Heeded session (r.helloCreate c n req addrs me draw) := by
  have hnoted : Heeded session ({ r with sessions := pruneSessions r.clock r.sessions }.note
      (.created n draw.sessionId req me r.clock)) :=
    h.prune.note rfl fun _ hrecord ↦ by cases hrecord
  by_cases hsame : draw.sessionId = session
  · subst hsame
    refine (hnoted.insert ?_).goOnFree n rfl rfl
    have hlast := h.uncreated hfresh
    change lastDecision draw.sessionId (r.history ++ [_]) = none
    rw [lastDecision_concat, hlast]
    rfl
  · exact (hnoted.update_ne hsame _).goOnFree n rfl rfl

private theorem heeded_handleReveal (h : Heeded session r) (req : RevealRequest) :
    Heeded session (r.handleReveal req) := by
  unfold PairingResponder.handleReveal
  simp only
  split
  · exact h.prune.beginFree rfl rfl
  · next entry hentry =>
    split
    · next commit ephSecret nonce helloDigest infoDigest hstage =>
      refine (h.prune.remove req.sessionId).begin ?_ fun hread ↦ by cases hread
      intro hholds
      have hlast := h.prune.table entry ((Option.some.inj hholds) ▸ hentry)
      rwa [hstage] at hlast
    · exact h.prune.beginFree rfl rfl

private theorem heeded_revealCheck (h : Heeded session r) {n : Nat} {req : RevealRequest}
    {entry : ConfirmEntry} (hcall : r.calls[n]? = some (.revealTaken req entry)) :
    Heeded session (r.revealCheck c n req entry) := by
  unfold PairingResponder.revealCheck
  split
  · exact h.goOnFree n rfl rfl
  · split
    · exact h.goOnFree n rfl rfl
    · split
      · exact h.goOnFree n rfl rfl
      · simp only
        split
        · exact h.goOnFree n rfl rfl
        · refine (h.note rfl fun _ hrecord ↦ by cases hrecord).goOn n ?_ fun hread ↦ by cases hread
          intro hholds
          have hlast := h.held _ (List.mem_of_getElem? hcall) hholds
          change lastDecision session (r.history ++ [_]) = none
          rw [lastDecision_concat, hlast]
          rfl

private theorem heeded_revealPutBack (h : Heeded session r) {n : Nat} {req : RevealRequest}
    {entry : ConfirmEntry} {z transcriptHash : Bytes32} {accepted : RevealAccepted}
    (hcall : r.calls[n]? = some (.revealChecked req entry z transcriptHash accepted)) :
    Heeded session (r.revealPutBack n req entry z transcriptHash accepted) := by
  by_cases hsame : req.sessionId = session
  · subst hsame
    refine (h.insert ?_).goOnFree n rfl rfl
    exact h.held _ (List.mem_of_getElem? hcall) rfl
  · exact (h.update_ne hsame _).goOnFree n rfl rfl

private theorem lastDecision_decided (history : List PairingEvent) (accept : Bool) :
    lastDecision session (history ++ [.decided session accept]) = some accept := by
  rw [lastDecision_concat]
  simp [PairingEvent.decisionOn]

/-- The user's decision on the session is stored. -/
theorem heeded_decided (h : Heeded session r) (entry : ConfirmEntry) {accept : Bool}
    (hcreated : session ∈ r.history.filterMap PairingEvent.createdSession)
    (hfree : ∀ call ∈ r.calls, call.holds ≠ some session)
    (hread : accept = false → ∀ call ∈ r.calls, call.readApproval session = false)
    (hdecision : entry.stage.decision = some accept) :
    Heeded session ({ r with
      sessions := Function.update r.sessions session (some entry) }.note
        (.decided session accept)) := by
  constructor
  · intro entry' hentry
    change Function.update r.sessions session (some entry) session = _ at hentry
    rw [Function.update_self] at hentry
    cases hentry
    rw [hdecision]
    exact lastDecision_decided r.history accept
  · intro call hcall hholds
    exact absurd hholds (hfree call hcall)
  · intro huncreated
    exact absurd (mem_filterMap_concat.mpr (.inl hcreated)) huncreated
  · intro call hcall hreads
    cases accept with
    | true => exact lastDecision_decided r.history true
    | false =>
      rw [hread rfl call hcall] at hreads
      cases hreads
  · intro before after record hhistory
    change r.history ++ [_] = _ at hhistory
    rcases List.eq_nil_or_concat after with rfl | ⟨after, last, rfl⟩
    · cases (List.append_inj' hhistory rfl).2
    · apply h.records before after record
      have hhistory : r.history ++ [.decided session accept] =
          (before ++ .recorded session record :: after) ++ [last] := by
        rw [hhistory]
        simp
      exact (List.append_inj' hhistory rfl).1

private theorem heeded_setLocalDecision (hl : Lawful c r) (h : Heeded session r)
    {session' : String} {accept : Bool} (hcond : RefusedInTime session r (.setLocalDecision session' accept)) :
    Heeded session (r.setLocalDecision session' accept) := by
  unfold PairingResponder.setLocalDecision
  simp only
  split
  · exact h.prune
  · next entry hentry =>
    split
    · exact h.prune
    · next z transcriptHash announced decision hstage =>
      by_cases hsame : session' = session
      · subst hsame
        have htable : r.sessions session' = some entry := pruneSessions_some hentry
        have hdecided := heeded_decided h.prune
          { entry with stage := .revealed z transcriptHash announced (some accept) }
          (hl.created_of_table htable) (hl.table_free session' (by rw [htable]; rfl))
          (fun hrefused ↦ hcond rfl hrefused ⟨entry, hentry, by rw [hstage]; rfl⟩) rfl
        exact hdecided.restrict (fun _ hsame ↦ hsame) rfl rfl
      · have hnoted := (h.prune.update_ne hsame
          (some { entry with stage := .revealed z transcriptHash announced (some accept) })).note
          (?_ : PairingEvent.decisionOn session (.decided session' accept) = none)
          fun _ hrecord ↦ by cases hrecord
        · exact hnoted.restrict (fun _ hsame ↦ hsame) rfl rfl
        · rw [PairingEvent.decisionOn, if_neg hsame]

private theorem heeded_removeSession (h : Heeded session r) (session' : String) :
    Heeded session (r.removeSession session') :=
  (h.remove session').restrict (fun _ hsame ↦ hsame) rfl rfl

/-- A confirm that finds the user's decision reads the last one. -/
theorem heeded_read (h : Heeded session r) {session' : String} {entry : ConfirmEntry}
    {z transcriptHash : Bytes32} {announced : Nat} {decision : Bool}
    (hentry : r.sessions session' = some entry)
    (hstage : entry.stage = .revealed z transcriptHash announced (some decision))
    (hread : (Call.confirmRead session' decision).readApproval session = true) :
    lastDecision session r.history = some true := by
  simp only [Call.readApproval, Bool.and_eq_true, beq_iff_eq] at hread
  obtain ⟨rfl, rfl⟩ := hread
  have hlast := h.table entry hentry
  rwa [hstage] at hlast

private theorem heeded_handleConfirm (h : Heeded session r) (session' : String) (confirm : Bool) :
    Heeded session (r.handleConfirm session' confirm) := by
  unfold PairingResponder.handleConfirm
  simp only
  split
  · split
    · have hnoted : Heeded session
          (({ r with sessions := pruneSessions r.clock r.sessions }.removeSession session').note
            (.refused session')) :=
        (heeded_removeSession h.prune session').note rfl fun _ hrecord ↦ by cases hrecord
      exact hnoted.beginFree rfl rfl
    · refine Heeded.beginFree ?_ rfl rfl
      exact h.prune.restrict (fun _ hsame ↦ hsame) rfl rfl
  · split
    · exact h.prune.beginFree rfl rfl
    · next entry hentry =>
      split
      · exact (h.prune.remove session').beginFree rfl rfl
      · next z transcriptHash announced decision hstage =>
        split
        · next decision =>
          exact h.prune.begin (fun hholds ↦ by cases hholds)
            fun hread ↦ heeded_read h.prune hentry hstage hread
        · split
          · exact h.prune.beginFree rfl rfl
          · exact h.prune.beginFree rfl rfl

private theorem heeded_awaitDecision (h : Heeded session r) (n : Nat) (session' : String)
    (deadline : Nat) : Heeded session (r.awaitDecision n session' deadline) := by
  unfold PairingResponder.awaitDecision
  simp only
  split
  · exact h.prune.goOnFree n rfl rfl
  · next entry hentry =>
    split
    · exact h.prune.goOnFree n rfl rfl
    · exact h.prune.goOnFree n rfl rfl
    · next hstage =>
      exact h.prune.goOn n (fun hholds ↦ by cases hholds)
        fun hread ↦ heeded_read h.prune hentry hstage hread

private theorem heeded_confirmTake (h : Heeded session r) {n : Nat} {session' : String}
    {decision : Bool} (hcall : r.calls[n]? = some (.confirmRead session' decision)) (now : Int) :
    Heeded session (r.confirmTake c n session' decision now) := by
  have hremoved := h.remove session'
  unfold PairingResponder.confirmTake
  simp only
  split
  · exact hremoved.goOnFree n rfl rfl
  · split
    · exact hremoved.goOnFree n rfl rfl
    · split
      · exact hremoved.goOnFree n rfl rfl
      · next hdecision =>
        refine (hremoved.note rfl ?_).goOnFree n rfl rfl
        intro record hrecord
        cases hrecord
        apply h.read _ (List.mem_of_getElem? hcall)
        simpa [Call.readApproval] using hdecision

private theorem heeded_advance (h : Heeded session r) {n : Nat} {draw : Draw}
    (hfresh : FreshSession r (.advance n draw)) : Heeded session (r.advance c n draw) := by
  unfold PairingResponder.advance
  split
  · exact heeded_helloLookup h n _ _ _
  · have hrecorded : ∀ failures, Heeded session { r with failures := failures } := fun _ ↦
      h.restrict (fun _ hsame ↦ hsame) rfl rfl
    exact (hrecorded _).goOnFree n rfl rfl
  · exact heeded_helloConsume h n _ _
  · exact h.goOnFree n rfl rfl
  · next hcall => exact heeded_helloCreate h (hfresh _ hcall rfl)
  · next hcall => exact heeded_revealCheck h hcall
  · next hcall => exact heeded_revealPutBack h hcall
  · exact heeded_awaitDecision h n _ _
  · split
    · exact h.goOnFree n rfl rfl
    · exact h
  · next hcall => exact heeded_confirmTake h hcall draw.unixSecs
  · exact (heeded_removeSession h _).goOnFree n rfl rfl
  · exact h
  · exact h

private theorem heeded_timeOut (h : Heeded session r) (n : Nat) : Heeded session (r.timeOut n) := by
  unfold PairingResponder.timeOut
  split
  · split
    · exact h.goOnFree n rfl rfl
    · exact h
  · split
    · exact h.goOnFree n rfl rfl
    · exact h
  · exact h

/-- Each step with refusals in time keeps the invariant. -/
theorem heeded_step (r : PairingResponder) (op : PairingOp) (hl : Lawful c r)
    (h : Heeded session r) (hfresh : FreshSession r op) (hcond : RefusedInTime session r op) :
    Heeded session (r.step c op) := by
  have hframe : ∀ r' : PairingResponder, r'.sessions = r.sessions → r'.calls = r.calls →
      r'.history = r.history → Heeded session r' := fun r' hsessions hcalls hhistory ↦
    h.restrict (fun _ hentry ↦ hsessions ▸ hentry) hcalls hhistory
  cases op with
  | tick nanos => exact hframe _ rfl rfl rfl
  | generateCode n =>
    exact (hframe { r with codes := [⟨padDigits 6 (n % 1000000), r.clock⟩] } rfl rfl rfl).note rfl
      fun _ hrecord ↦ by cases hrecord
  | revokeCodes =>
    exact (hframe { r with codes := [] } rfl rfl rfl).note rfl fun _ hrecord ↦ by cases hrecord
  | setSelfInfo info => exact hframe _ rfl rfl rfl
  | hello req source => exact heeded_handleHello h req source
  | reveal req => exact heeded_handleReveal h req
  | setLocalDecision session' accept => exact heeded_setLocalDecision hl h hcond
  | confirm session' confirm => exact heeded_handleConfirm h session' confirm
  | advance n draw => exact heeded_advance h hfresh
  | timeOut n => exact heeded_timeOut h n
  | pruneCodes => exact hframe _ rfl rfl rfl
  | pruneSessions => exact h.prune
  | pruneFailures => exact hframe _ rfl rfl rfl

end Changes

/-- In every run in which new sessions get new ids and no refusal of the session is stored while
a confirm that read an approval is about to take it, no record of the session comes after a
refusal. -/
theorem refusal_final (c : Primitives) (identity : LinkIdentity) (selfInfo : SelfInfo)
    (session : String) (ops : List PairingOp)
    (h : EveryStep (PairingResponder.step c)
      (fun r op ↦ FreshSession r op ∧ RefusedInTime session r op) (.new identity selfInfo) ops) :
    RefusalFinal session (run (PairingResponder.step c) (.new identity selfInfo) ops).history := by
  have hnew : Heeded session (PairingResponder.new identity selfInfo) := by
    constructor <;> simp [PairingResponder.new, lastDecision]
  have hboth : ∀ (r : PairingResponder) op, Lawful c r ∧ Heeded session r →
      FreshSession r op ∧ RefusedInTime session r op →
        Lawful c (r.step c op) ∧ Heeded session (r.step c op) := by
    rintro r op ⟨hl, hh⟩ ⟨hfresh, hcond⟩
    exact ⟨lawful_step r op hl hfresh, heeded_step r op hl hh hfresh hcond⟩
  obtain ⟨hlawful, hheeded⟩ := run_invariant hboth ⟨lawful_new c identity selfInfo, hnew⟩ h
  constructor
  · intro before between after record hhistory
    have hnodup := hlawful.closed_once
    rw [hhistory] at hnodup
    simp [PairingEvent.closedSession, List.nodup_append] at hnodup
  · intro before between after record hhistory
    have hlast := hheeded.records (before ++ .decided session false :: between) after record (by
      rw [hhistory]
      simp)
    exact approved_after hlast

/-- An approved session, a refusal and the confirm that takes the session. -/
theorem refusal_final_approved :
    let r := run (PairingResponder.step plainPrimitives) sampleResponder
      (revealedSession ++ [.setLocalDecision "s" false, .setLocalDecision "s" true,
        .confirm "s" true, .advance 2 (sampleDraw "s")])
    r.history.filterMap PairingEvent.recordedSession = ["s"] ∧ RefusalFinal "s" r.history := by
  refine ⟨by decide +kernel, ?_⟩
  apply refusal_final
  decide +kernel

/-- The record of the session of the examples. -/
def sampleRecord : PeerRecord where
  fingerprint := String.ofList (List.replicate 64 '0')
  identityPub := List.replicate 32 1
  name := "Desk"
  platform := some "linux"
  linkSecret := List.replicate 32 0
  pairedAt := 1700000000
  lastSeenAt := 1700000000
  grantsControl := true

/-- The refusal comes after the confirm read the approval; the record is returned. -/
theorem refusal_overlooked :
    ¬ RefusalFinal "s" (run (PairingResponder.step plainPrimitives) sampleResponder
      (revealedSession ++ [.setLocalDecision "s" true, .confirm "s" true,
        .setLocalDecision "s" false, .advance 2 (sampleDraw "s")])).history := by
  intro h
  have happroved := h.user ((run (PairingResponder.step plainPrimitives) sampleResponder
    (revealedSession ++ [.setLocalDecision "s" true])).history) [] [] sampleRecord
    (by decide +kernel)
  cases happroved

end Link
