import FluxDown.Link.PairingSafety

/-!
# The responder keeps what the reveal derived

Library `Link`. A session is revealed once. What the table, the calls and the records hold of it
afterwards is the shared secret and the digest of the transcript that this reveal derived, and the
key of the hello that created it.
-/

namespace Link

open Base

/-- The shared secret and the digest of the transcript that are stored with a session. -/
def SessionStage.derived : SessionStage → Option (Bytes32 × Bytes32)
  | .awaitingReveal .. => none
  | .revealed z transcriptHash _ _ => some (z, transcriptHash)

/-- The shared secret and the digest of the transcript that a reveal is about to store. -/
def Call.derived : Call → Option (Bytes32 × Bytes32)
  | .revealChecked _ _ z transcriptHash _ => some (z, transcriptHash)
  | _ => none

/-- The accepted reveals of the session derived what is known. -/
def Derived (c : Primitives) (history : List PairingEvent) (session : String)
    (known : Option (Bytes32 × Bytes32)) : Prop :=
  ∀ v : Revelation, v.event session ∈ history → known = some (v.z, v.transcript.hash c)

/-- The table, the calls and the records hold what the reveal of the session derived. -/
structure Settled (c : Primitives) (session : String) (r : PairingResponder) : Prop where
  /-- The table stores it. -/
  table : ∀ entry, r.sessions session = some entry →
    Derived c r.history session entry.stage.derived
  /-- A reveal that holds the session is about to store it. -/
  held : ∀ call ∈ r.calls, call.holds = some session → Derived c r.history session call.derived
  /-- The secret of a record is made of it. -/
  records : ∀ (v : Revelation) (record : PeerRecord), v.event session ∈ r.history →
    .recorded session record ∈ r.history →
      record.linkSecret = deriveLinkKey c v.z (v.transcript.hash c)

/-- What a responder holds of the session has the key and the secret. -/
structure ResponderHolds (c : Primitives) (r : PairingResponder) (session : String)
    (key : Bytes32) (secret : List UInt8) : Prop where
  /-- A revealed session in the table. -/
  stored : ∀ entry z transcriptHash announced decision, r.sessions session = some entry →
    entry.stage = .revealed z transcriptHash announced decision →
      entry.initiatorIdPub = key ∧ deriveLinkKey c z transcriptHash = secret
  /-- A reveal that is about to put the session back. -/
  checked : ∀ req entry z transcriptHash accepted,
    .revealChecked req entry z transcriptHash accepted ∈ r.calls → req.sessionId = session →
      entry.initiatorIdPub = key ∧ deriveLinkKey c z transcriptHash = secret
  /-- A record of the session. -/
  recorded : ∀ record, .recorded session record ∈ r.history →
    record.identityPub = key.toList ∧ record.linkSecret = secret
  /-- The record that a confirm of the session returns next. -/
  returned : ∀ n decision draw record, r.calls[n]? = some (.confirmRead session decision) →
    (r.step c (.advance n draw)).calls[n]? = some (.returned (.ok (.confirm (some record)))) →
      record.identityPub = key.toList ∧ record.linkSecret = secret

section Changes

variable {c : Primitives} {session : String} {r : PairingResponder}

/-- The session may be dropped from the table. -/
theorem Settled.restrict {r' : PairingResponder} (h : Settled c session r)
    (hsession : ∀ entry, r'.sessions session = some entry → r.sessions session = some entry)
    (hcalls : r'.calls = r.calls) (hhistory : r'.history = r.history) : Settled c session r' := by
  constructor
  · rw [hhistory]
    intro entry hentry
    exact h.table entry (hsession entry hentry)
  · rw [hcalls, hhistory]
    exact h.held
  · rw [hhistory]
    exact h.records

private theorem Settled.prune (h : Settled c session r) :
    Settled c session { r with sessions := pruneSessions r.clock r.sessions } :=
  h.restrict (fun _ ↦ pruneSessions_some) rfl rfl

private theorem Settled.remove (h : Settled c session r) (session' : String) :
    Settled c session { r with sessions := Function.update r.sessions session' none } := by
  refine h.restrict ?_ rfl rfl
  intro entry hentry
  change Function.update r.sessions session' none session = _ at hentry
  rw [Function.update_apply] at hentry
  split at hentry
  · cases hentry
  · exact hentry

/-- A call that does not hold the session, or holds what its reveal derived. -/
theorem Settled.move (h : Settled c session r) {new : Call} {calls : List Call}
    (hmem : ∀ call ∈ calls, call ∈ r.calls ∨ call = new)
    (hholds : new.holds = some session → Derived c r.history session new.derived) :
    Settled c session { r with calls := calls } := by
  refine ⟨h.table, ?_, h.records⟩
  intro call hcall hheld
  rcases hmem call hcall with hold | rfl
  · exact h.held call hold hheld
  · exact hholds hheld

private theorem Settled.goOn (h : Settled c session r) (n : Nat) {new : Call}
    (hholds : new.holds = some session → Derived c r.history session new.derived) :
    Settled c session (r.goOn n new) :=
  h.move (fun _ hcall ↦ List.mem_or_eq_of_mem_set hcall) hholds

private theorem Settled.begin (h : Settled c session r) {new : Call}
    (hholds : new.holds = some session → Derived c r.history session new.derived) :
    Settled c session (r.begin new) := by
  refine h.move ?_ hholds
  intro call hcall
  rw [List.mem_append, List.mem_singleton] at hcall
  exact hcall

private theorem Settled.goOnFree (h : Settled c session r) (n : Nat) {new : Call}
    (hholds : new.holds = none) : Settled c session (r.goOn n new) := by
  apply h.goOn n
  intro hheld
  rw [hholds] at hheld
  cases hheld

private theorem Settled.beginFree (h : Settled c session r) {new : Call}
    (hholds : new.holds = none) : Settled c session (r.begin new) := by
  apply h.begin
  intro hheld
  rw [hholds] at hheld
  cases hheld

private theorem Derived.grow {history : List PairingEvent} {event : PairingEvent}
    {known : Option (Bytes32 × Bytes32)} (h : Derived c history session known)
    (hreveal : ∀ v : Revelation, event ≠ v.event session) :
    Derived c (history ++ [event]) session known := by
  intro v hv
  rcases List.mem_append.mp hv with hold | hnew
  · exact h v hold
  · exact absurd (List.mem_singleton.mp hnew).symm (hreveal v)

/-- An event that is no reveal of the session; a record of it needs the secret of its reveal. -/
theorem Settled.note (h : Settled c session r) {event : PairingEvent}
    (hreveal : ∀ v : Revelation, event ≠ v.event session)
    (hrecord : ∀ (v : Revelation) (record : PeerRecord), v.event session ∈ r.history →
      event = .recorded session record →
        record.linkSecret = deriveLinkKey c v.z (v.transcript.hash c)) :
    Settled c session (r.note event) := by
  refine ⟨fun entry hentry ↦ (h.table entry hentry).grow hreveal,
    fun call hcall hholds ↦ (h.held call hcall hholds).grow hreveal, ?_⟩
  intro v record hv hmem
  rcases List.mem_append.mp hv with hv | hv
  · rcases List.mem_append.mp hmem with hold | hnew
    · exact h.records v record hv hold
    · exact hrecord v record hv (List.mem_singleton.mp hnew).symm
  · exact absurd (List.mem_singleton.mp hv).symm (hreveal v)

/-- An event that is neither a reveal nor a record. -/
theorem Settled.noteOther (h : Settled c session r) {event : PairingEvent}
    (hreveal : event.isReveal = false) (hrecord : event.recordedSession = none) :
    Settled c session (r.note event) := by
  apply h.note
  · rintro v rfl
    cases hreveal
  · rintro v record - rfl
    cases hrecord

/-- Another session's place in the table does not matter. -/
theorem Settled.update_ne (h : Settled c session r) {session' : String}
    (hne : session' ≠ session) (entry : Option ConfirmEntry) :
    Settled c session { r with sessions := Function.update r.sessions session' entry } := by
  refine h.restrict ?_ rfl rfl
  intro entry' hentry
  change Function.update r.sessions session' entry session = _ at hentry
  rwa [Function.update_of_ne (Ne.symm hne)] at hentry

/-- A session is put into the table with what its reveal derived. -/
theorem Settled.insert (h : Settled c session r) {entry : ConfirmEntry}
    (hderived : Derived c r.history session entry.stage.derived) :
    Settled c session
      { r with sessions := Function.update r.sessions session (some entry) } := by
  refine ⟨?_, h.held, h.records⟩
  intro entry' hentry
  change Function.update r.sessions session (some entry) session = _ at hentry
  rw [Function.update_self] at hentry
  cases hentry
  exact hderived

/-! ## Sections keep the invariant -/

private theorem settled_handleHello (h : Settled c session r) (req : HelloRequest)
    (source : Option IpAddr) : Settled c session (r.handleHello req source) := by
  unfold PairingResponder.handleHello
  split
  · exact h.beginFree rfl
  · split
    · exact h.beginFree rfl
    · have hpruned : Settled c session { r with failures := pruneFailures r.clock r.failures } :=
        h.restrict (fun _ hsame ↦ hsame) rfl rfl
      simp only
      split
      · exact hpruned.beginFree rfl
      · exact hpruned.beginFree rfl

private theorem settled_helloLookup (h : Settled c session r) (n : Nat) (req : HelloRequest)
    (addrs : List String) (source : Option IpAddr) :
    Settled c session (r.helloLookup c n req addrs source) := by
  have hnoted : ∀ found, Settled c session ({ r with codes := pruneCodes r.clock r.codes }.note
      (.compared n (failureBucketKey source) found r.clock)) := by
    intro found
    have hpruned : Settled c session { r with codes := pruneCodes r.clock r.codes } :=
      h.restrict (fun _ hsame ↦ hsame) rfl rfl
    exact hpruned.noteOther rfl rfl
  unfold PairingResponder.helloLookup
  split
  · exact h.goOnFree n rfl
  · simp only
    split
    · exact (hnoted _).goOnFree n rfl
    · split
      · exact (hnoted _).goOnFree n rfl
      · exact (hnoted _).goOnFree n rfl

private theorem settled_helloConsume (h : Settled c session r) (n : Nat) (req : HelloRequest)
    (addrs : List String) : Settled c session (r.helloConsume n req addrs) := by
  have hcodes : ∀ codes, Settled c session { r with codes := codes } := fun _ ↦
    h.restrict (fun _ hsame ↦ hsame) rfl rfl
  unfold PairingResponder.helloConsume
  simp only
  split
  · exact (hcodes _).goOnFree n rfl
  · exact ((hcodes _).noteOther rfl rfl).goOnFree n rfl

/-- A session that was not created was not revealed. -/
theorem unrevealed (hl : Lawful c r)
    (hfresh : session ∉ r.history.filterMap PairingEvent.createdSession)
    (known : Option (Bytes32 × Bytes32)) : Derived c r.history session known := by
  intro v hv
  obtain ⟨o, hsound, -⟩ := hl.revealed_ok session v hv
  apply absurd _ hfresh
  exact List.mem_filterMap.mpr ⟨_, hsound.created, rfl⟩

private theorem settled_helloCreate (hl : Lawful c r) (h : Settled c session r) {n : Nat}
    {req : HelloRequest} {addrs : List String} {me : SelfInfo} {draw : Draw}
    (hfresh : draw.sessionId ∉ r.history.filterMap PairingEvent.createdSession) :
    Settled c session (r.helloCreate c n req addrs me draw) := by
  have hnoted : Settled c session ({ r with sessions := pruneSessions r.clock r.sessions }.note
      (.created n draw.sessionId req me r.clock)) := h.prune.noteOther rfl rfl
  by_cases hsame : draw.sessionId = session
  · subst hsame
    refine (hnoted.insert ?_).goOnFree n rfl
    exact (unrevealed hl hfresh _).grow fun v he ↦ by cases he
  · exact (hnoted.update_ne hsame _).goOnFree n rfl

private theorem settled_handleReveal (h : Settled c session r) (req : RevealRequest) :
    Settled c session (r.handleReveal req) := by
  unfold PairingResponder.handleReveal
  simp only
  split
  · exact h.prune.beginFree rfl
  · next entry hentry =>
    split
    · next commit ephSecret nonce helloDigest infoDigest hstage =>
      refine (h.prune.remove req.sessionId).begin ?_
      intro hholds
      have htable := h.prune.table entry (Option.some.inj hholds ▸ hentry)
      rwa [hstage] at htable
    · exact h.prune.beginFree rfl

/-- The reveal is accepted: the call that holds the session is the only one that knows of it. -/
theorem settled_revealed (hl : Lawful c r) (h : Settled c session r) {n : Nat}
    {req : RevealRequest} {entry : ConfirmEntry} {z : Bytes32} {transcript : Transcript}
    {accepted : RevealAccepted} (hcall : r.calls[n]? = some (.revealTaken req entry)) :
    Settled c session ((r.note (.revealed req.sessionId req z transcript r.clock)).goOn n
      (.revealChecked req entry z (transcript.hash c) accepted)) := by
  have hmem : Call.revealTaken req entry ∈ r.calls := List.mem_of_getElem? hcall
  by_cases hsame : req.sessionId = session
  · subst hsame
    have hbefore : Derived c r.history req.sessionId none := h.held _ hmem rfl
    constructor
    · intro entry' hentry
      change r.sessions req.sessionId = some entry' at hentry
      exact absurd rfl (hl.table_free req.sessionId (by rw [hentry]; rfl) _ hmem)
    · intro call hset hholds v hv
      obtain ⟨i, hi⟩ := List.getElem?_of_mem hset
      change (r.calls.set n _)[i]? = some call at hi
      have hn : i = n := by
        by_contra hne
        rw [List.getElem?_set_ne (Ne.symm hne)] at hi
        exact hne (hl.held_once i n call _ req.sessionId hi hcall hholds rfl)
      rw [hn, List.getElem?_set_self (List.getElem?_eq_some_iff.mp hcall).1] at hi
      cases hi
      rcases List.mem_append.mp hv with hold | hnew
      · cases hbefore v hold
      · obtain ⟨-, -, hz, htranscript, -⟩ :=
          PairingEvent.revealed.inj (List.mem_singleton.mp hnew)
        rw [hz, htranscript]
        rfl
    · intro v record hv hrecorded
      have hclosed : req.sessionId ∈ r.history.filterMap PairingEvent.closedSession := by
        rcases List.mem_append.mp hrecorded with hold | hnew
        · exact List.mem_filterMap.mpr ⟨_, hold, rfl⟩
        · cases List.mem_singleton.mp hnew
      exact absurd rfl ((hl.gone req.sessionId hclosed).2.1 _ hmem)
  · have hnoted : Settled c session
        (r.note (.revealed req.sessionId req z transcript r.clock)) := by
      apply h.note
      · intro v he
        exact hsame (PairingEvent.revealed.inj he).1
      · rintro v record - he
        cases he
    apply hnoted.goOn n
    intro hholds
    exact absurd (Option.some.inj hholds) hsame

private theorem settled_revealCheck (hl : Lawful c r) (h : Settled c session r) {n : Nat}
    {req : RevealRequest} {entry : ConfirmEntry}
    (hcall : r.calls[n]? = some (.revealTaken req entry)) :
    Settled c session (r.revealCheck c n req entry) := by
  unfold PairingResponder.revealCheck
  split
  · exact h.goOnFree n rfl
  · split
    · exact h.goOnFree n rfl
    · split
      · exact h.goOnFree n rfl
      · simp only
        split
        · exact h.goOnFree n rfl
        · exact settled_revealed hl h hcall

private theorem settled_revealPutBack (h : Settled c session r) {n : Nat} {req : RevealRequest}
    {entry : ConfirmEntry} {z transcriptHash : Bytes32} {accepted : RevealAccepted}
    (hcall : r.calls[n]? = some (.revealChecked req entry z transcriptHash accepted)) :
    Settled c session (r.revealPutBack n req entry z transcriptHash accepted) := by
  by_cases hsame : req.sessionId = session
  · subst hsame
    refine (h.insert ?_).goOnFree n rfl
    exact h.held _ (List.mem_of_getElem? hcall) rfl
  · exact (h.update_ne hsame _).goOnFree n rfl

private theorem settled_setLocalDecision (h : Settled c session r) (session' : String)
    (accept : Bool) : Settled c session (r.setLocalDecision session' accept) := by
  unfold PairingResponder.setLocalDecision
  simp only
  split
  · exact h.prune
  · next entry hentry =>
    split
    · exact h.prune
    · next z transcriptHash announced decision hstage =>
      have hput : Settled c session { r with
          sessions := Function.update (pruneSessions r.clock r.sessions) session'
            (some { entry with stage := .revealed z transcriptHash announced (some accept) }) } := by
        by_cases hsame : session' = session
        · subst hsame
          refine h.prune.insert ?_
          have htable := h.prune.table entry hentry
          rwa [hstage] at htable
        · exact h.prune.update_ne hsame _
      have hnoted : ∀ event : PairingEvent, event.isReveal = false →
          event.recordedSession = none → Settled c session (PairingResponder.note _ event) :=
        fun _ hreveal hrecord ↦ hput.noteOther hreveal hrecord
      exact (hnoted (.decided session' accept) rfl rfl).restrict (fun _ hsame ↦ hsame) rfl rfl

private theorem settled_removeSession (h : Settled c session r) (session' : String) :
    Settled c session (r.removeSession session') :=
  (h.remove session').restrict (fun _ hsame ↦ hsame) rfl rfl

private theorem settled_handleConfirm (h : Settled c session r) (session' : String)
    (confirm : Bool) : Settled c session (r.handleConfirm session' confirm) := by
  unfold PairingResponder.handleConfirm
  simp only
  split
  · split
    · have hnoted : Settled c session
          (({ r with sessions := pruneSessions r.clock r.sessions }.removeSession session').note
            (.refused session')) := (settled_removeSession h.prune session').noteOther rfl rfl
      exact hnoted.beginFree rfl
    · refine Settled.beginFree ?_ rfl
      exact h.prune.restrict (fun _ hsame ↦ hsame) rfl rfl
  · split
    · exact h.prune.beginFree rfl
    · split
      · exact (h.prune.remove session').beginFree rfl
      · split
        · exact h.prune.beginFree rfl
        · split
          · exact h.prune.beginFree rfl
          · exact h.prune.beginFree rfl

private theorem settled_awaitDecision (h : Settled c session r) (n : Nat) (session' : String)
    (deadline : Nat) : Settled c session (r.awaitDecision n session' deadline) := by
  unfold PairingResponder.awaitDecision
  simp only
  split
  · exact h.prune.goOnFree n rfl
  · split
    · exact h.prune.goOnFree n rfl
    · exact h.prune.goOnFree n rfl
    · exact h.prune.goOnFree n rfl

private theorem settled_confirmTake (h : Settled c session r) (n : Nat) (session' : String)
    (decision : Bool) (now : Int) :
    Settled c session (r.confirmTake c n session' decision now) := by
  have hremoved := h.remove session'
  unfold PairingResponder.confirmTake
  simp only
  split
  · exact hremoved.goOnFree n rfl
  · next entry hentry =>
    split
    · exact hremoved.goOnFree n rfl
    · next z transcriptHash announced decision' hstage =>
      split
      · exact hremoved.goOnFree n rfl
      · refine (hremoved.note (fun v he ↦ by cases he) ?_).goOnFree n rfl
        intro v record hv he
        cases he
        have htable := h.table entry hentry v hv
        rw [hstage] at htable
        cases htable
        rfl

private theorem settled_advance (hl : Lawful c r) (h : Settled c session r) {n : Nat} {draw : Draw}
    (hfresh : FreshSession r (.advance n draw)) : Settled c session (r.advance c n draw) := by
  unfold PairingResponder.advance
  split
  · exact settled_helloLookup h n _ _ _
  · have hrecorded : ∀ failures, Settled c session { r with failures := failures } := fun _ ↦
      h.restrict (fun _ hsame ↦ hsame) rfl rfl
    exact (hrecorded _).goOnFree n rfl
  · exact settled_helloConsume h n _ _
  · exact h.goOnFree n rfl
  · next hcall => exact settled_helloCreate hl h (hfresh _ hcall rfl)
  · next hcall => exact settled_revealCheck hl h hcall
  · next hcall => exact settled_revealPutBack h hcall
  · exact settled_awaitDecision h n _ _
  · split
    · exact h.goOnFree n rfl
    · exact h
  · exact settled_confirmTake h n _ _ draw.unixSecs
  · exact (settled_removeSession h _).goOnFree n rfl
  · exact h
  · exact h

private theorem settled_timeOut (h : Settled c session r) (n : Nat) :
    Settled c session (r.timeOut n) := by
  unfold PairingResponder.timeOut
  split
  · split
    · exact h.goOnFree n rfl
    · exact h
  · split
    · exact h.goOnFree n rfl
    · exact h
  · exact h

/-- Each step keeps the invariant. -/
theorem settled_step (r : PairingResponder) (op : PairingOp) (hl : Lawful c r)
    (h : Settled c session r) (hfresh : FreshSession r op) : Settled c session (r.step c op) := by
  have hframe : ∀ r' : PairingResponder, r'.sessions = r.sessions → r'.calls = r.calls →
      r'.history = r.history → Settled c session r' := fun r' hsessions hcalls hhistory ↦
    h.restrict (fun _ hentry ↦ hsessions ▸ hentry) hcalls hhistory
  cases op with
  | tick nanos => exact hframe _ rfl rfl rfl
  | generateCode n =>
    exact (hframe { r with codes := [⟨padDigits 6 (n % 1000000), r.clock⟩] } rfl rfl rfl).noteOther
      rfl rfl
  | revokeCodes => exact (hframe { r with codes := [] } rfl rfl rfl).noteOther rfl rfl
  | setSelfInfo info => exact hframe _ rfl rfl rfl
  | hello req source => exact settled_handleHello h req source
  | reveal req => exact settled_handleReveal h req
  | setLocalDecision session' accept => exact settled_setLocalDecision h session' accept
  | confirm session' confirm => exact settled_handleConfirm h session' confirm
  | advance n draw => exact settled_advance hl h hfresh
  | timeOut n => exact settled_timeOut h n
  | pruneCodes => exact hframe _ rfl rfl rfl
  | pruneSessions => exact h.prune
  | pruneFailures => exact hframe _ rfl rfl rfl

end Changes

/-- In a run whose new sessions get new ids, what the responder holds of a session is what its
reveal derived. -/
theorem settled_run (c : Primitives) (identity : LinkIdentity) (selfInfo : SelfInfo)
    (session : String) (ops : List PairingOp)
    (h : EveryStep (PairingResponder.step c) FreshSession (.new identity selfInfo) ops) :
    Settled c session (run (PairingResponder.step c) (.new identity selfInfo) ops) := by
  have hnew : Settled c session (PairingResponder.new identity selfInfo) := by
    constructor <;> simp [PairingResponder.new]
  have hboth : ∀ (r : PairingResponder) op, Lawful c r ∧ Settled c session r →
      FreshSession r op → Lawful c (r.step c op) ∧ Settled c session (r.step c op) := by
    rintro r op ⟨hl, hs⟩ hfresh
    exact ⟨lawful_step r op hl hfresh, settled_step r op hl hs hfresh⟩
  exact (run_invariant hboth ⟨lawful_new c identity selfInfo, hnew⟩ h).2

/-- What a confirm returns is the record of the session in the table. -/
theorem returned_of_confirmTake {c : Primitives} {r : PairingResponder} {n : Nat}
    {session : String} {decision : Bool} {now : Int} {record : PeerRecord}
    (hcall : r.calls[n]? = some (.confirmRead session decision))
    (hreturned : (r.confirmTake c n session decision now).calls[n]? =
      some (.returned (.ok (.confirm (some record))))) :
    ∃ entry z transcriptHash announced decision', r.sessions session = some entry ∧
      entry.stage = .revealed z transcriptHash announced decision' ∧
        record = PairingResponder.recordOf c entry z transcriptHash now := by
  have hset : ∀ call : Call, (r.calls.set n call)[n]? = some call := fun call ↦
    List.getElem?_set_self (List.getElem?_eq_some_iff.mp hcall).1
  unfold PairingResponder.confirmTake at hreturned
  simp only at hreturned
  split at hreturned
  · cases (hset _).symm.trans hreturned
  · next entry hentry =>
    split at hreturned
    · cases (hset _).symm.trans hreturned
    · next z transcriptHash announced decision' hstage =>
      split at hreturned
      · cases (hset _).symm.trans hreturned
      · cases (hset _).symm.trans hreturned
        exact ⟨entry, z, transcriptHash, announced, decision', hentry, hstage, rfl⟩

/-- The responder that accepted the reveal of a session holds the key of the hello that created
it, and the secret that the reveal derived. -/
theorem responderHolds_of_revealed {c : Primitives} {r : PairingResponder} {session : String}
    {o : Origin} {v : Revelation} (hl : Lawful c r) (hs : Settled c session r)
    (hcreated : o.event session ∈ r.history) (hrevealed : v.event session ∈ r.history) :
    ResponderHolds c r session o.req.initiatorIdPub
      (deriveLinkKey c v.z (v.transcript.hash c)) := by
  have horigin : ∀ o' : Origin, o'.event session ∈ r.history → o'.req = o.req := by
    intro o' ho'
    exact (PairingEvent.created.inj (hl.origin_eq hcreated ho')).2.2.1
  have htable : ∀ entry z transcriptHash announced decision, r.sessions session = some entry →
      entry.stage = .revealed z transcriptHash announced decision →
        entry.initiatorIdPub = o.req.initiatorIdPub ∧
          deriveLinkKey c z transcriptHash = deriveLinkKey c v.z (v.transcript.hash c) := by
    intro entry z transcriptHash announced decision hentry hstage
    obtain ⟨o', htraced⟩ := hl.table_ok session entry hentry
    have hderived := hs.table entry hentry v hrevealed
    rw [hstage] at hderived
    cases hderived
    exact ⟨by rw [htraced.identity_eq, horigin o' htraced.sound.created], rfl⟩
  constructor
  · exact htable
  · intro req entry z transcriptHash accepted hcall hsession
    obtain ⟨n, hn⟩ := List.getElem?_of_mem hcall
    obtain ⟨o', v', htraced, -⟩ := hl.calls_ok n _ hn
    have hderived := hs.held _ hcall (congrArg some hsession) v hrevealed
    cases hderived
    rw [hsession] at htraced
    exact ⟨by rw [htraced.identity_eq, horigin o' htraced.sound.created], rfl⟩
  · intro record hrecorded
    obtain ⟨o', v', hauthorised⟩ := hl.records_ok session record hrecorded
    refine ⟨?_, hs.records v record hrevealed hrecorded⟩
    rw [hauthorised.identity_eq, horigin o' hauthorised.sound.created]
  · intro n decision draw record hcall hreturned
    have hstep : r.step c (.advance n draw) =
        r.confirmTake c n session decision draw.unixSecs := by
      simp only [PairingResponder.step, PairingResponder.advance, hcall]
    rw [hstep] at hreturned
    obtain ⟨entry, z, transcriptHash, announced, decision', hentry, hstage, rfl⟩ :=
      returned_of_confirmTake hcall hreturned
    obtain ⟨hkey, hsecret⟩ := htable entry z transcriptHash announced decision' hentry hstage
    exact ⟨congrArg Vector.toList hkey, hsecret⟩

end Link
